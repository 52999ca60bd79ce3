import HttpReply.Proofs.Answers

/-!
The sources that are made of ordinary values, asked again and again. Neither their text nor their
parts depend on anything but how often the parts were requested before, directly or by an
inspection: some give the same every time, some are empty after the first time, and some have then
nothing to offer at all.
-/

namespace HttpReply

/-- The answer to an act of a source that has this text and these parts and cannot be closed. -/
def Act.plainAnswer (text : Option String) (parts : Option (List String)) : Act → ActAnswer
  | .shape => .shape (.ofAnswers text parts)
  | .asText => .text text
  | .parts => .parts parts
  | .isClosable => .closable false
  | .close => .closed none

/-- A script that says nothing about closing answers by its text and its parts alone. -/
theorem Script.answerAfter_eq_plainAnswer {script : Script} (hClosable : script.closable = [])
    (hFault : script.closeFault = none) (requested questioned : Nat) :
    script.answerAfter requested questioned =
      Act.plainAnswer script.text (script.supply.partsAt requested) := by
  funext act
  cases act with
  | isClosable => simp [answerAfter, Act.plainAnswer, hClosable, answerAt]
  | close => simp [answerAfter, Act.plainAnswer, hFault]
  | _ => rfl

namespace Source

/-- In any sequence of acts, and behind any number of handles, the source has this text all the
time, and the parts that belong to the number of inspections and requests for parts so far. -/
def AnswersBy (source : Source) (text : Option String) (parts : Nat → Option (List String)) :
    Prop :=
  ∀ (layers : Nat) (acts : List Act) (i : Nat),
    ((source.layered layers).actAll acts).value.1[i]? =
      acts[i]?.map (Act.plainAnswer text
        (parts ((acts.take i).countP fun act => act = .parts ∨ act = .shape)))

/-- A text has no parts, however often it is asked. -/
theorem answersBy_text (s : String) : (text s).AnswersBy (some s) fun _ => none := by
  intro layers acts i
  rw [((Follows.text s).layered layers).getElem?_answers_actAll,
    Script.answerAfter_eq_plainAnswer rfl rfl]
  rfl

theorem answersBy_supplied (supply : Supply) :
    (supplied supply).AnswersBy none supply.partsAt := by
  intro layers acts i
  rw [((Follows.supplied supply).layered layers).getElem?_answers_actAll,
    Script.requests_of_no_text rfl, Script.answerAfter_eq_plainAnswer rfl rfl]

variable {α : Type} [ToString α]

theorem answersBy_ofList (items : List α) :
    (ofList items).AnswersBy none fun n => some (if n = 0 then items.map toString else []) :=
  answersBy_supplied (.drained (items.map toString))

theorem ofQueue_eq (items front : List α) :
    ofQueue items front = ofList (front.reverse ++ items) := by
  rw [ofQueue, List.foldl_flip_cons_eq_append, List.map_id']

theorem answersBy_ofRange (range : IntegerRange) :
    (ofRange range).AnswersBy none fun n =>
      if n = 0 then some ((range.toList.map Int64.toInt).map toString) else none := by
  rw [List.map_map]
  exact answersBy_supplied (.counted range)

/-- Each answer of a source of ordinary values is decided by how many inspections and requests for
parts came before it. A list, a queue and an optional element are empty after the first of them, and
a stream is no body any more; a text, an array and an empty body stay as they are. The stream of a
range gives its integers in ascending order, each once. -/
theorem answers_of_ordinary_values :
    (∀ s, (text s).AnswersBy (some s) fun _ => none) ∧
    (∀ items : List α,
      (ofList items).AnswersBy none fun n => some (if n = 0 then items.map toString else [])) ∧
    (∀ items front : List α, (ofQueue items front).AnswersBy none fun n =>
      some (if n = 0 then (front.reverse ++ items).map toString else [])) ∧
    (∀ item : Option α, (ofOption item).AnswersBy none fun n =>
      some (if n = 0 then item.toList.map toString else [])) ∧
    (∀ items : List α, (ofArray items).AnswersBy none fun _ => some (items.map toString)) ∧
    (empty.AnswersBy none fun _ => some []) ∧
    (∀ items : List α, (ofStream items).AnswersBy none fun n =>
      if n = 0 then some (items.map toString) else none) ∧
    ∀ range, ∃ integers : List Int,
      integers.Pairwise (· < ·) ∧
      (∀ n, n ∈ integers ↔ range.first.toInt ≤ n ∧
        if range.closed then n ≤ range.last.toInt else n < range.last.toInt) ∧
      (integers = [] ↔
        if range.closed then range.last < range.first else range.last ≤ range.first) ∧
      (ofRange range).AnswersBy none fun n =>
        if n = 0 then some (integers.map toString) else none := by
  refine ⟨answersBy_text, answersBy_ofList, ?_, fun item => answersBy_ofList item.toList,
    fun items => answersBy_supplied (.constant (items.map toString)),
    answersBy_supplied (.constant []), fun items => answersBy_supplied (.once (items.map toString)),
    ?_⟩
  · intro items front
    rw [ofQueue_eq]
    exact answersBy_ofList _
  · intro range
    exact ⟨range.toList.map Int64.toInt, range.pairwise_toList, fun n => IntegerRange.mem_toList,
      IntegerRange.map_toList_eq_nil_iff, answersBy_ofRange range⟩

/-- The queue is handed over to the first request; the later inspection finds it empty. -/
example : ((ofQueue ["a"] ["b", "c"]).actAll [.asText, .parts, .isClosable, .shape]).value.1 =
    [.text none, .parts (some ["c", "b", "a"]), .closable false, .shape (.chunked [])] := by
  decide

end Source

end HttpReply
