import HttpReply.Response.Describe
import HttpReply.Headers.Lemmas
import HttpReply.Proofs.FramedParts

/-!
What a description tells. Headers, shapes and responses are described alike only if they agree in
everything that is shown; no text within them can feign another one, in either layout.
-/

namespace HttpReply

open Text

variable (layout : Layout) (hidden : Char → Bool)

namespace Headers

theorem readable_describeAt (depth : Nat) :
    Readable fun headers : Headers => headers.describeAt layout depth hidden := by
  have hEntry := (readable_quoted hidden).entry (readable_quoted hidden)
  have hEntries := (PartsReadable.map hEntry).enclose sound_map layout (depth + 1)
  have hField := hEntries.field "headers" ⟨'h', rfl, by decide⟩
  have hRecord := hField.enclose (sound_record "HttpHeaders" ⟨'H', rfl, by decide⟩) layout depth
  exact hRecord.comp fun {a b : Headers} => Headers.ext

/-- Headers are described alike exactly if they have the same entries in the same order. -/
theorem describe_eq_iff (a b : Headers) :
    a.describe layout hidden = b.describe layout hidden ↔ a.entries = b.entries := by
  constructor
  · intro h
    have hSame : a = b :=
      (readable_describeAt layout hidden 0).injective (String.ofList_inj.mp h)
    rw [hSame]
  · intro h
    rw [Headers.ext h]

end Headers

namespace Shape

/-- The first letter of a description. -/
def initial : Shape → Char
  | scalar _ => 'S'
  | chunked _ => 'C'
  | invalid => 'I'

theorem head?_describe (shape : Shape) :
    (shape.describe layout hidden).toList.head? = some shape.initial := by
  unfold describe
  rw [String.toList_ofList]
  cases shape with
  | scalar text => exact layout.head?_enclose 0 _ rfl
  | chunked parts => exact layout.head?_enclose 0 _ rfl
  | invalid => rfl

/-- Shapes are described alike only if they are the same. -/
theorem eq_of_describe_eq {a b : Shape}
    (h : a.describe layout hidden = b.describe layout hidden) : a = b := by
  have hInitial : a.initial = b.initial := by
    rw [← Option.some_inj, ← head?_describe layout hidden a, h, head?_describe]
  match a, b with
  | scalar _, scalar _ =>
      have hText := (readable_quoted hidden).enclose
        (sound_tuple "Scalar" ⟨'S', rfl, by decide⟩) layout 0
      exact congrArg scalar (hText.injective (String.ofList_inj.mp h))
  | chunked _, chunked _ =>
      have hParts := (PartsReadable.map (readable_quoted hidden)).enclose sound_list layout 1
      have hTuple := hParts.enclose (sound_tuple "Chunked" ⟨'C', rfl, by decide⟩) layout 0
      exact congrArg chunked (hTuple.injective (String.ofList_inj.mp h))
  | invalid, invalid => rfl
  | scalar _, chunked _ | scalar _, invalid | chunked _, scalar _ | chunked _, invalid
  | invalid, scalar _ | invalid, chunked _ => cases hInitial

end Shape

namespace Response

/-- What a description shows of a response, in the order in which it is shown. -/
def shown (r : Response) : UInt16 × Headers × List String × Nat × Bool × Unit :=
  (r.status, r.headers, r.body, r.length, r.source.isSome, ())

theorem shown_eq_of_describe_eq {r s : Response}
    (h : r.describe layout hidden = s.describe layout hidden) : r.shown = s.shown := by
  have hChunks := (PartsReadable.map (readable_quoted hidden)).enclose sound_list layout 1
  have hStatus := (readable_toDigits.comp UInt16.toNat.inj).field "status" ⟨'s', rfl, by decide⟩
  have hHeaders := (Headers.readable_describeAt layout hidden 1).field "headers"
    ⟨'h', rfl, by decide⟩
  have hBody := hChunks.field "body" ⟨'b', rfl, by decide⟩
  have hLength := readable_toDigits.field "length" ⟨'l', rfl, by decide⟩
  have hClosable := readable_truth.field "closable" ⟨'c', rfl, by decide⟩
  have hParts := PartsReadable.nil.cons hClosable |>.cons hLength |>.cons hBody |>.cons hHeaders
    |>.cons hStatus
  have hRecord := hParts.enclose (sound_record "HttpResponse" ⟨'H', rfl, by decide⟩) layout 0
  rw [describe, describe, String.ofList_inj] at h
  exact hRecord.injective (a := r.shown) (b := s.shown) h

theorem describe_eq_iff (r s : Response) :
    r.describe layout hidden = s.describe layout hidden ↔
      r.status = s.status ∧ r.headers.entries = s.headers.entries ∧ r.body = s.body ∧
        r.length = s.length ∧ r.source.isSome = s.source.isSome := by
  constructor
  · intro h
    have hShown := shown_eq_of_describe_eq layout hidden h
    simp only [shown, Prod.mk.injEq, and_true] at hShown
    obtain ⟨hStatus, hHeaders, hBody, hLength, hClosable⟩ := hShown
    exact ⟨hStatus, congrArg Headers.entries hHeaders, hBody, hLength, hClosable⟩
  · rintro ⟨hStatus, hHeaders, hBody, hLength, hClosable⟩
    rw [describe, describe, hStatus, Headers.ext hHeaders, hBody, hLength, hClosable]

end Response

/-- Whatever the texts in it contain, and whichever further characters are hidden behind their
number, a description in either layout tells everything that it shows: of a response all but the
source itself, of headers the entries in their order, and of a shape the shape. -/
theorem descriptions_identify (hidden : Char → Bool) :
    (∀ (r s : Response) (layout : Layout),
      r.describe layout hidden = s.describe layout hidden ↔
        r.status = s.status ∧ r.headers.entries = s.headers.entries ∧ r.body = s.body ∧
          r.length = s.length ∧ r.source.isSome = s.source.isSome) ∧
    (∀ r s : Response,
      r.describe .oneLine hidden = s.describe .oneLine hidden ↔
        r.describe .indented hidden = s.describe .indented hidden) ∧
    (∀ (a b : Headers) (layout : Layout),
      a.describe layout hidden = b.describe layout hidden ↔ a.entries = b.entries) ∧
    ∀ (a b : Shape) (layout : Layout),
      a.describe layout hidden = b.describe layout hidden ↔ a = b := by
  refine ⟨?_, ?_, ?_, ?_⟩
  · intro r s layout
    exact Response.describe_eq_iff layout hidden r s
  · intro r s
    rw [Response.describe_eq_iff, Response.describe_eq_iff]
  · intro a b layout
    exact Headers.describe_eq_iff layout hidden a b
  · intro a b layout
    exact ⟨Shape.eq_of_describe_eq layout hidden, fun h => h ▸ rfl⟩

/-- A text that feigns a second chunk is seen to be one chunk. -/
example : (Shape.chunked ["a\", \"b"]).describe .oneLine = "Chunked([\"a\\\", \\\"b\"])" := by
  decide

end HttpReply
