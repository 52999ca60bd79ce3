import HttpReply.Proofs.Layers
import HttpReply.Source.Act
import HttpReply.Source.Script

/-!
What a source that follows a script answers to acts in any order. Acts change nothing in the script
but how much of its parts and of its answers about closing has been used up. So each answer is a
function of how often either was asked for before.
-/

namespace HttpReply

/-! ## Scripts -/

/-- The answer to a question that is asked for the time `n`, counted from zero. -/
def answerAt (answers : List Bool) (n : Nat) : Bool :=
  answers[n]?.getD (answers.getLast?.getD false)

theorem nextAnswer_fst (answers : List Bool) : (nextAnswer answers).1 = answerAt answers 0 := by
  match answers with
  | [] => rfl
  | [last] => rfl
  | answer :: next :: rest => rfl

theorem answerAt_nextAnswer (answers : List Bool) (n : Nat) :
    answerAt (nextAnswer answers).2 n = answerAt answers (n + 1) := by
  match answers with
  | [] => rfl
  | [last] => cases n <;> rfl
  | answer :: next :: rest => simp [answerAt, nextAnswer, List.getLast?_cons]

/-- The answer to a request for parts that is made for the time `n`, counted from zero. -/
def Supply.partsAt : Supply → Nat → Option (List String)
  | absent, _ => none
  | constant parts, _ => some parts
  | drained parts, n => some (if n = 0 then parts else [])
  | once parts, n => if n = 0 then some parts else none
  | counted range, n => if n = 0 then some (range.toList.map fun k => k.toInt.repr) else none

theorem Supply.take_fst (supply : Supply) : supply.take.1 = supply.partsAt 0 := by
  cases supply <;> rfl

theorem Supply.partsAt_take (supply : Supply) (n : Nat) :
    supply.take.2.partsAt n = supply.partsAt (n + 1) := by
  cases supply <;> simp [take, partsAt]

/-- What an inspection makes of the answers to the question for the text and to the request for
parts. -/
def Shape.ofAnswers : Option String → Option (List String) → Shape
  | some content, _ => .scalar content
  | none, some pieces => .chunked pieces
  | none, none => .invalid

namespace Script

/-- Whether an act requests the parts. An inspection does so only without a text. -/
def requests (script : Script) : Act → Bool
  | .parts => true
  | .shape => script.text.isNone
  | .asText | .isClosable | .close => false

theorem requests_of_no_text {script : Script} (h : script.text = none) :
    script.requests = fun act => decide (act = .parts ∨ act = .shape) := by
  funext act
  cases act with
  | shape => simp [requests, h]
  | _ => rfl

/-- The answer to an act that comes after that many requests for parts and that many questions about
closing. -/
def answerAfter (script : Script) (requested questioned : Nat) : Act → ActAnswer
  | .shape => .shape (.ofAnswers script.text (script.supply.partsAt requested))
  | .asText => .text script.text
  | .parts => .parts (script.supply.partsAt requested)
  | .isClosable => .closable (answerAt script.closable questioned)
  | .close => .closed script.closeFault

/-- What is left of a script after an act. -/
def after (script : Script) (act : Act) : Script :=
  { script with
    supply := if script.requests act then script.supply.take.2 else script.supply
    closable := if act = .isClosable then (nextAnswer script.closable).2 else script.closable }

/-- An inspection uses up what a request for parts does, and with a text nothing. -/
theorem after_shape (script : Script) :
    script.after .shape = if script.text.isNone then script.after .parts else script := by
  have hRequests : script.requests .shape = script.text.isNone := rfl
  cases hText : script.text.isNone <;> simp only [after, hRequests, hText] <;> rfl

@[simp] theorem text_after (script : Script) (act : Act) : (script.after act).text = script.text :=
  rfl

theorem requests_after (script : Script) (act : Act) :
    (script.after act).requests = script.requests := by
  funext later
  cases later <;> rfl

theorem answerAfter_after (script : Script) (first act : Act) (requested questioned : Nat) :
    (script.after first).answerAfter requested questioned act =
      script.answerAfter (requested + if script.requests first then 1 else 0)
        (questioned + if first = .isClosable then 1 else 0) act := by
  have hParts : (script.after first).supply.partsAt requested =
      script.supply.partsAt (requested + if script.requests first then 1 else 0) := by
    cases hFirst : script.requests first <;> simp [after, hFirst, Supply.partsAt_take]
  have hClosable : answerAt (script.after first).closable questioned =
      answerAt script.closable (questioned + if first = .isClosable then 1 else 0) := by
    by_cases hFirst : first = .isClosable <;> simp [after, hFirst, answerAt_nextAnswer]
  cases act with
  | shape => simp only [answerAfter, hParts]; rfl
  | asText => rfl
  | parts => simp only [answerAfter, hParts]
  | isClosable => simp only [answerAfter, hClosable]
  | close => rfl

end Script

namespace Source

/-- A source that answers as the script does. Handles leave no trace. -/
inductive Follows : Source → Script → Prop where
  | text (s : String) : Follows (text s) { text := some s }
  | supplied (supply : Supply) : Follows (supplied supply) { supply }
  | scripted (script : Script) : Follows (scripted script) script
  | wrapped {inner : Source} {script : Script} (follows : Follows inner script) :
      Follows (wrapped inner) script

namespace Follows

variable {source : Source} {script : Script}

theorem layered (follows : source.Follows script) (layers : Nat) :
    (source.layered layers).Follows script := by
  induction layers with
  | zero => exact follows
  | succ layers ih => exact .wrapped ih

/-! ## Single questions -/

/-- A question is answered by the script, and the source goes on to follow what is left of it. -/
theorem ask (follows : source.Follows script) (asked : Capability) :
    (source.ask asked).value.1 = (Script.machine asked script).1 ∧
      (source.ask asked).value.2.Follows (Script.machine asked script).2 := by
  induction follows with
  | text s => cases asked <;> exact ⟨rfl, .text s⟩
  | supplied supply => cases asked <;> exact ⟨rfl, .supplied _⟩
  | scripted script =>
      rw [Source.scripted, ask_machine]
      exact ⟨rfl, .scripted _⟩
  | wrapped follows ih => exact ⟨ih.1, .wrapped ih.2⟩

/-- The question for the text leaves the source as it was. -/
theorem source_asText (follows : source.Follows script) : source.asText.value.2 = source := by
  induction follows with
  | text s => rfl
  | supplied supply => rfl
  | scripted script =>
      rw [Source.scripted, asText, ask_machine]
      rfl
  | wrapped follows ih => exact congrArg Source.wrapped ih

theorem value_asText (follows : source.Follows script) :
    source.asText.value = (script.text, source) :=
  Prod.ext (follows.ask .asText).1 follows.source_asText

theorem shape (follows : source.Follows script) :
    source.shape.value.1 = .ofAnswers script.text (script.supply.partsAt 0) ∧
      source.shape.value.2.Follows (script.after .shape) := by
  have hText := follows.value_asText
  rw [Script.after_shape, ← Supply.take_fst]
  cases hContent : script.text with
  | some content =>
      rw [hContent] at hText
      rw [shape_of_text hText]
      exact ⟨rfl, follows⟩
  | none =>
      rw [hContent] at hText
      obtain ⟨hParts, hRest⟩ : source.parts.value.1 = script.supply.take.1 ∧
          source.parts.value.2.Follows (script.after .parts) := follows.ask .parts
      rw [shape_of_no_text hText, ← hParts]
      revert hRest
      rcases source.parts.value with ⟨_ | pieces, rest⟩ <;> exact fun hRest => ⟨rfl, hRest⟩

/-! ## Acts -/

/-- An act is answered by the script, and the source goes on to follow what is left of it. -/
theorem act (follows : source.Follows script) (act : Act) :
    (source.act act).value.1 = script.answerAfter 0 0 act ∧
      (source.act act).value.2.Follows (script.after act) := by
  cases act with
  | shape => exact ⟨congrArg ActAnswer.shape follows.shape.1, follows.shape.2⟩
  | asText =>
      obtain ⟨hAnswer, hRest⟩ := follows.ask .asText
      exact ⟨congrArg ActAnswer.text hAnswer, hRest⟩
  | parts =>
      obtain ⟨hAnswer, hRest⟩ := follows.ask .parts
      exact ⟨congrArg ActAnswer.parts (hAnswer.trans (Supply.take_fst _)), hRest⟩
  | isClosable =>
      obtain ⟨hAnswer, hRest⟩ := follows.ask .isClosable
      exact ⟨congrArg ActAnswer.closable (hAnswer.trans (nextAnswer_fst _)), hRest⟩
  | close =>
      obtain ⟨hAnswer, hRest⟩ := follows.ask .close
      exact ⟨congrArg ActAnswer.closed hAnswer, hRest⟩

/-- The answer at each place of a sequence of acts is decided by what was asked before it: how often
parts, and how often whether the source can be closed. -/
theorem getElem?_answers_actAll (follows : source.Follows script) (acts : List Act) (i : Nat) :
    (source.actAll acts).value.1[i]? =
      acts[i]?.map (script.answerAfter ((acts.take i).countP script.requests)
        ((acts.take i).count .isClosable)) := by
  induction acts generalizing source script i with
  | nil => rfl
  | cons first rest ih =>
      obtain ⟨hAnswer, hRest⟩ := follows.act first
      have hAnswers : (source.actAll (first :: rest)).value.1 =
          (source.act first).value.1 :: ((source.act first).value.2.actAll rest).value.1 := rfl
      cases i with
      | zero => rw [hAnswers, hAnswer]; rfl
      | succ i =>
          rw [hAnswers, List.getElem?_cons_succ, ih hRest, Script.requests_after]
          congr 1
          funext act
          rw [Script.answerAfter_after, List.take_succ_cons, List.countP_cons, List.count_cons]
          simp only [beq_iff_eq]

end Follows

end Source

end HttpReply
