import HttpReply.Proofs.Readability

/-!
Framed parts can be read back. In neither layout is what stands between two parts, or the bracket
after the last one, taken for anything else, so it is seen how many parts there are and where each
one ends; and frames can stand within frames to any depth.
-/

namespace HttpReply.Text

/-- A frame whose end can be seen: it closes with one bracket, with at most a blank before it. -/
structure Frame.Sound (frame : Frame) : Prop where
  opening : Opens frame.opening
  padding : frame.padding = [] ∨ frame.padding = [' ']
  closing : ∃ bracket ∈ brackets, frame.closing = [bracket]

theorem sound_list : Frame.list.Sound :=
  ⟨⟨'[', rfl, by decide⟩, Or.inl rfl, ']', by decide, rfl⟩

theorem sound_map : Frame.map.Sound :=
  ⟨⟨'\x7b', rfl, by decide⟩, Or.inl rfl, '\x7d', by decide, rfl⟩

theorem sound_record (name : String) (h : Opens name.toList) : (Frame.record name).Sound :=
  ⟨h.append _, Or.inr rfl, '\x7d', by decide, rfl⟩

theorem sound_tuple (name : String) (h : Opens name.toList) : (Frame.tuple name).Sound :=
  ⟨h.append _, Or.inl rfl, ')', by decide, rfl⟩

/-- What follows the last of several parts, each set between `before` and `after`, and is not taken
for one part more. -/
structure Ends (before after rest : List Char) : Prop where
  stops : Stops (after ++ rest)
  ne : ∀ more, rest ≠ before ++ more

/-- A sequence of parts can be read back if the parts in the same place can be told apart. -/
theorem eq_of_flatMap_append_eq {before after x y : List Char}
    (hNext : ∀ rest, Stops (after ++ (before ++ rest)))
    (hx : Ends before after x) (hy : Ends before after y) {ps qs : List (List Char)}
    (hApart : ∀ pair ∈ ps.zip qs, ToldApart pair.1 pair.2)
    (h : (ps.flatMap fun p => before ++ (p ++ after)) ++ x =
      (qs.flatMap fun q => before ++ (q ++ after)) ++ y) :
    ps = qs := by
  have hStops {rest : List Char} (hEnds : Ends before after rest) (parts : List (List Char)) :
      Stops (after ++ ((parts.flatMap fun part => before ++ (part ++ after)) ++ rest)) := by
    cases parts with
    | nil => exact hEnds.stops
    | cons part parts =>
        simp only [List.flatMap_cons, List.append_assoc]
        exact hNext _
  induction ps generalizing qs with
  | nil =>
      cases qs with
      | nil => rfl
      | cons q qs =>
          simp only [List.flatMap_nil, List.nil_append, List.flatMap_cons, List.append_assoc] at h
          exact absurd h (hx.ne _)
  | cons p ps ih =>
      cases qs with
      | nil =>
          simp only [List.flatMap_nil, List.nil_append, List.flatMap_cons, List.append_assoc] at h
          exact absurd h.symm (hy.ne _)
      | cons q qs =>
          simp only [List.zip_cons_cons, List.forall_mem_cons] at hApart
          simp only [List.flatMap_cons, List.append_assoc] at h
          have hParts := List.append_cancel_left h
          obtain rfl := hApart.1 _ _ (hStops hx ps) (hStops hy qs) hParts
          have hRest := List.append_cancel_left (List.append_cancel_left hParts)
          rw [ih hApart.2 hRest]

theorem separator_append_intercalate (separator : List Char) {parts : List (List Char)}
    (h : parts ≠ []) :
    separator ++ separator.intercalate parts =
      parts.flatMap fun part => separator ++ (part ++ []) := by
  induction parts with
  | nil => exact absurd rfl h
  | cons part rest ih =>
      cases rest with
      | nil => simp
      | cons next rest =>
          rw [List.intercalate_cons_of_ne_nil (by simp), List.append_assoc, ih (by simp)]
          simp

theorem opens_intercalate (separator : List Char) {part : List Char} (h : Opens part)
    (rest : List (List Char)) : Opens (separator.intercalate (part :: rest)) := by
  cases rest with
  | nil => simpa using h
  | cons next rest =>
      rw [List.intercalate_cons_of_ne_nil (by simp), List.append_assoc]
      exact h.append _

namespace Layout

variable {frame : Frame} (layout : Layout) (depth : Nat)

theorem opening_prefix_enclose (parts : List (List Char)) :
    frame.opening <+: layout.enclose frame depth parts := by
  cases parts with
  | nil => exact List.prefix_append _ _
  | cons part rest => cases layout <;> simp [enclose]

theorem head?_enclose {c : Char} (parts : List (List Char)) (h : frame.opening.head? = some c) :
    (layout.enclose frame depth parts).head? = some c := by
  obtain ⟨inner, hInner⟩ : frame.opening <+: layout.enclose frame depth parts :=
    layout.opening_prefix_enclose depth parts
  rw [← hInner, List.head?_append, h, Option.some_or]

variable (hFrame : frame.Sound)

include hFrame

/-- The closing of a frame is not taken for a separator. -/
theorem ends_oneLine (x : List Char) :
    Ends [',', ' '] [] (frame.padding ++ (frame.closing ++ x)) := by
  obtain ⟨bracket, hBracket, hClosing⟩ := hFrame.closing
  obtain ⟨hDigit, hComma, -⟩ := sign_of_mem_brackets hBracket
  rw [hClosing]
  rcases hFrame.padding with hPadding | hPadding
  · rw [hPadding]
    exact ⟨stops_cons.mpr hDigit, fun more h => hComma (List.cons.inj h).1⟩
  · rw [hPadding]
    exact ⟨stops_cons.mpr rfl, by simp⟩

/-- The line on which a frame closes is not taken for the line of a part, which is deeper. -/
theorem ends_indented (x : List Char) :
    Ends (indentation (depth + 1)) [',', '\n'] (indentation depth ++ (frame.closing ++ x)) := by
  obtain ⟨bracket, hBracket, hClosing⟩ := hFrame.closing
  obtain ⟨-, -, hBlank⟩ := sign_of_mem_brackets hBracket
  have hDeeper : indentation (depth + 1) = indentation depth ++ [' ', ' ', ' ', ' '] := by
    simp [indentation, Nat.mul_add, ← List.replicate_append_replicate]
  refine ⟨stops_cons.mpr rfl, fun more h => ?_⟩
  rw [hDeeper, List.append_assoc, hClosing] at h
  exact hBlank (List.cons.inj (List.append_cancel_left h)).1

/-- A first part is not taken for the closing of a frame without parts. -/
theorem enclose_cons_append_ne {p : List Char} (hp : Opens p) (ps : List (List Char))
    (x y : List Char) :
    layout.enclose frame depth (p :: ps) ++ x ≠ layout.enclose frame depth [] ++ y := by
  obtain ⟨inner, hInner, hEnclose⟩ : ∃ inner, Opens inner ∧
      layout.enclose frame depth (p :: ps) = frame.opening ++ inner := by
    cases layout with
    | oneLine =>
        refine ⟨frame.padding ++ ([',', ' '].intercalate (p :: ps) ++
          (frame.padding ++ frame.closing)), ?_, by simp [enclose]⟩
        rcases hFrame.padding with hPadding | hPadding
        · rw [hPadding]
          exact (opens_intercalate _ hp ps).append _
        · rw [hPadding]
          exact ⟨' ', rfl, by decide⟩
    | indented =>
        refine ⟨['\n'] ++ (partLines depth (p :: ps) ++ (indentation depth ++ frame.closing)),
          ⟨'\n', rfl, by decide⟩, by simp [enclose]⟩
  obtain ⟨bracket, hBracket, hClosing⟩ := hFrame.closing
  intro h
  rw [hEnclose, enclose, hClosing, List.append_assoc, List.append_assoc] at h
  obtain ⟨c, hHead, hc⟩ := hInner.append x
  rw [List.append_cancel_left h] at hHead
  exact hc (Option.some.inj hHead ▸ hBracket)

/-- The parts in a frame can be read back, whatever follows the frame, if those in the same place
can be told apart. -/
theorem parts_eq_of_enclose_append_eq {ps qs : List (List Char)} {x y : List Char}
    (hps : ∀ p ∈ ps, Opens p) (hqs : ∀ q ∈ qs, Opens q)
    (hApart : ∀ pair ∈ ps.zip qs, ToldApart pair.1 pair.2)
    (h : layout.enclose frame depth ps ++ x = layout.enclose frame depth qs ++ y) :
    ps = qs := by
  match ps, qs with
  | [], [] => rfl
  | p :: ps, [] =>
      exact absurd h (layout.enclose_cons_append_ne depth hFrame (hps p List.mem_cons_self) ps x y)
  | [], q :: qs =>
      exact absurd h.symm
        (layout.enclose_cons_append_ne depth hFrame (hqs q List.mem_cons_self) qs y x)
  | p :: ps, q :: qs =>
      cases layout with
      | oneLine =>
          simp only [enclose, List.append_assoc] at h
          have hJoined := List.append_cancel_left (List.append_cancel_left h)
          have hParts := congrArg ([',', ' '] ++ ·) hJoined
          simp only [← List.append_assoc [',', ' ']] at hParts
          rw [separator_append_intercalate _ (by simp),
            separator_append_intercalate _ (by simp)] at hParts
          exact eq_of_flatMap_append_eq (fun _ => stops_cons.mpr rfl)
            (ends_oneLine hFrame x) (ends_oneLine hFrame y) hApart hParts
      | indented =>
          simp only [enclose, partLines, List.append_assoc] at h
          have hParts := List.append_cancel_left (List.append_cancel_left h)
          exact eq_of_flatMap_append_eq (fun _ => stops_cons.mpr rfl)
            (ends_indented depth hFrame x) (ends_indented depth hFrame y) hApart hParts

end Layout

/-- A way of writing a value in parts, each of which can be read back. -/
structure PartsReadable {α : Type} (write : α → List (List Char)) : Prop where
  opens : ∀ a, ∀ part ∈ write a, Opens part
  toldApart : ∀ a b, ∀ pair ∈ (write a).zip (write b), ToldApart pair.1 pair.2
  injective : ∀ {a b}, write a = write b → a = b

section Writing

variable {α β : Type} {write : α → List Char} {writeParts : β → List (List Char)} {frame : Frame}

theorem PartsReadable.nil : PartsReadable fun _ : Unit => [] :=
  ⟨by simp, by simp, fun _ => rfl⟩

/-- One part more, as in a record with one field more. -/
theorem PartsReadable.cons (hWrite : Readable write) (hParts : PartsReadable writeParts) :
    PartsReadable fun pair : α × β => write pair.1 :: writeParts pair.2 where
  opens pair := List.forall_mem_cons.mpr ⟨hWrite.opens pair.1, hParts.opens pair.2⟩
  toldApart a b := by
    rw [List.zip_cons_cons]
    exact List.forall_mem_cons.mpr ⟨hWrite.toldApart a.1 b.1, hParts.toldApart a.2 b.2⟩
  injective h := by
    obtain ⟨hFirst, hRest⟩ := List.cons.inj h
    exact Prod.ext (hWrite.injective hFirst) (hParts.injective hRest)

/-- Any number of parts of one kind. -/
theorem PartsReadable.map (hWrite : Readable write) :
    PartsReadable fun as : List α => as.map write where
  opens as part hPart := by
    obtain ⟨a, -, rfl⟩ := List.mem_map.mp hPart
    exact hWrite.opens a
  toldApart as bs := by
    rintro ⟨p, q⟩ hPair
    obtain ⟨hp, hq⟩ := List.of_mem_zip hPair
    obtain ⟨a, -, rfl⟩ := List.mem_map.mp hp
    obtain ⟨b, -, rfl⟩ := List.mem_map.mp hq
    exact hWrite.toldApart a b
  injective h := (List.map_inj_right fun _ _ => hWrite.injective).mp h

/-- Parts that can be read back can be read back from a frame, which may itself be a part. -/
theorem PartsReadable.enclose (hParts : PartsReadable writeParts) (hFrame : frame.Sound)
    (layout : Layout) (depth : Nat) :
    Readable fun b => layout.enclose frame depth (writeParts b) where
  opens b := by
    obtain ⟨inner, hInner⟩ := layout.opening_prefix_enclose depth (writeParts b)
    rw [← hInner]
    exact hFrame.opening.append inner
  eq_of_append_eq {b c x y} _ _ h :=
    hParts.injective <| layout.parts_eq_of_enclose_append_eq depth hFrame (hParts.opens b)
      (hParts.opens c) (hParts.toldApart b c) h

/-- A single part in a frame of its own. -/
theorem Readable.enclose (hWrite : Readable write) (hFrame : frame.Sound) (layout : Layout)
    (depth : Nat) : Readable fun a => layout.enclose frame depth [write a] :=
  ((PartsReadable.map hWrite).enclose hFrame layout depth).comp fun {a b} (h : [a] = [b]) =>
    List.singleton_inj.mp h

end Writing

end HttpReply.Text
