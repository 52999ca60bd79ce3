import HttpReply.Source.Lemmas

/-!
Sources behind any number of handles. Each handle passes every question on, so the source answers,
is recorded and changes as it would on its own.
-/

namespace HttpReply.Source

/-- A source behind that many handles. -/
def layered (source : Source) : Nat → Source
  | 0 => source
  | layers + 1 => wrapped (source.layered layers)

variable (source : Source) (layers : Nat)

theorem ask_layered (asked : Capability) : (source.layered layers).ask asked =
    (fun answered => (answered.1, answered.2.layered layers)) <$> source.ask asked := by
  induction layers with
  | zero => exact (id_map _).symm
  | succ layers ih => simp [layered, ask, ih]

theorem shape_layered : (source.layered layers).shape =
    (fun asked => (asked.1, asked.2.layered layers)) <$> source.shape := by
  simp only [shape, ask_layered, bind_map_left, map_bind]
  congr 1
  funext answered
  obtain ⟨_ | content, rest⟩ := answered
  · simp only [ask_layered, bind_map_left, map_bind]
    congr 1
    funext answered
    obtain ⟨_ | pieces, rest⟩ := answered <;> simp
  · simp

theorem release_layered : (source.layered layers).release = source.release := by
  simp only [release, ask_layered, bind_map_left]
  congr 1
  funext answered
  obtain ⟨_ | _, rest⟩ := answered
  · rfl
  · simp only [if_true]
    congr 1
    funext reported
    congr 1
    funext closed
    obtain ⟨_ | fault, left⟩ := closed <;> rfl

end HttpReply.Source
