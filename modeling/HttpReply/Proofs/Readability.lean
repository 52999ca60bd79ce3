import HttpReply.Text.Layout
import HttpReply.Text.Quoted

/-!
Reading a description from its front. A number ends where no digit follows, and a quoted text at its
second quote, whatever the text contains and whichever characters are hidden. So each of them can be
recovered from any longer text that it stands at the front of.
-/

namespace HttpReply.Text

/-! ## Digits -/

theorem exists_eq_digitChar_of_mem_toDigits {base n : Nat} (hBase : 1 < base) {c : Char}
    (h : c ∈ Nat.toDigits base n) : ∃ digit, c = Nat.digitChar digit := by
  induction n using Nat.base_induction base hBase with
  | single m hm =>
      rw [Nat.toDigits_of_lt_base hm] at h
      exact ⟨m, List.mem_singleton.mp h⟩
  | digit m k hk hm ih =>
      rw [← Nat.toDigits_append_toDigits hBase hm hk, Nat.toDigits_of_lt_base hk] at h
      rcases List.mem_append.mp h with hFront | hLast
      · exact ih hFront
      · exact ⟨k, List.mem_singleton.mp hLast⟩

theorem digitChar_inj : ∀ m < 16, ∀ n < 16, Nat.digitChar m = Nat.digitChar n → m = n := by
  decide

/-- Up to base sixteen, no two numbers have the same digits. -/
theorem toDigits_inj {base m n : Nat} (hBase : 1 < base) (hSigns : base ≤ 16)
    (h : Nat.toDigits base m = Nat.toDigits base n) : m = n := by
  induction m using Nat.strongRecOn generalizing n with
  | _ m ih =>
      have hShort : m < base ↔ n < base := by
        have hm := Nat.length_toDigits_le_iff (n := m) hBase Nat.one_pos
        have hn := Nat.length_toDigits_le_iff (n := n) hBase Nat.one_pos
        rw [Nat.pow_one] at hm hn
        rw [← hm, ← hn, h]
      by_cases hm : m < base
      · have hn := hShort.mp hm
        rw [Nat.toDigits_of_lt_base hm, Nat.toDigits_of_lt_base hn] at h
        exact digitChar_inj m (by omega) n (by omega) (List.singleton_inj.mp h)
      · have hn : ¬n < base := fun hn => hm (hShort.mpr hn)
        rw [Nat.toDigits_of_base_le hBase (Nat.not_lt.mp hm),
          Nat.toDigits_of_base_le hBase (Nat.not_lt.mp hn)] at h
        obtain ⟨hFront, hLast⟩ := List.append_inj' h rfl
        have hDiv : m / base = n / base := ih _ (Nat.div_lt_self (by omega) hBase) hFront
        have hMod : m % base = n % base := by
          have hmLast := Nat.mod_lt m (show 0 < base by omega)
          have hnLast := Nat.mod_lt n (show 0 < base by omega)
          exact digitChar_inj _ (by omega) _ (by omega) (List.singleton_inj.mp hLast)
        exact Nat.ext_div_mod hDiv hMod

/-! ## What stands at the front -/

theorem takeWhile_append_of_forall {p : Char → Bool} {cs rest : List Char}
    (hAll : ∀ c ∈ cs, p c = true) (hRest : ∀ c ∈ rest.head?, p c = false) :
    (cs ++ rest).takeWhile p = cs := by
  rw [List.takeWhile_append_of_pos hAll]
  cases rest with
  | nil => simp
  | cons c rest => simp [hRest c rfl]

/-- Of a longer text, the front that consists of one sort of characters is determined, if the
rest begins with none of them. -/
theorem eq_of_append_eq_of_forall {p : Char → Bool} {cs ds x y : List Char}
    (hcs : ∀ c ∈ cs, p c = true) (hds : ∀ c ∈ ds, p c = true)
    (hx : ∀ c ∈ x.head?, p c = false) (hy : ∀ c ∈ y.head?, p c = false)
    (h : cs ++ x = ds ++ y) : cs = ds := by
  rw [← takeWhile_append_of_forall hcs hx, h, takeWhile_append_of_forall hds hy]

/-- The text does not go on with a digit. -/
def Stops (rest : List Char) : Prop :=
  ∀ c ∈ rest.head?, c.isDigit = false

theorem stops_nil : Stops [] := by simp [Stops]

theorem stops_cons {c : Char} {rest : List Char} : Stops (c :: rest) ↔ c.isDigit = false := by
  simp [Stops]

/-- Of the two texts, only one can stand at the front of a longer text, unless they are the same.
A digit must not follow: of `1` and `12`, both stand at the front of `12`. -/
def ToldApart (p q : List Char) : Prop :=
  ∀ x y, Stops x → Stops y → p ++ x = q ++ y → p = q

/-- The closing brackets of the frames. -/
def brackets : List Char := [')', ']', '\x7d']

/-- A bracket is none of the signs that follow a part, and none that a number goes on with. -/
theorem sign_of_mem_brackets {c : Char} (h : c ∈ brackets) :
    c.isDigit = false ∧ c ≠ ',' ∧ c ≠ ' ' := by
  simp only [brackets, List.mem_cons, List.not_mem_nil, or_false] at h
  rcases h with rfl | rfl | rfl <;> decide

/-- The text has a first character, which is no closing bracket. -/
def Opens (text : List Char) : Prop :=
  ∃ c ∈ text.head?, c ∉ brackets

theorem Opens.append {text : List Char} (h : Opens text) (rest : List Char) :
    Opens (text ++ rest) := by
  obtain ⟨c, hc, hBracket⟩ := h
  exact ⟨c, by simp_all [Option.mem_def, List.head?_append], hBracket⟩

/-- A way of writing that can be read back from the front of a longer text. -/
structure Readable {α : Type} (write : α → List Char) : Prop where
  opens : ∀ a, Opens (write a)
  eq_of_append_eq : ∀ {a b x y}, Stops x → Stops y → write a ++ x = write b ++ y → a = b

namespace Readable

variable {α β : Type} {write : α → List Char} {writeOther : β → List Char}

theorem injective (hWrite : Readable write) {a b : α} (h : write a = write b) : a = b :=
  hWrite.eq_of_append_eq stops_nil stops_nil (congrArg (· ++ []) h)

theorem toldApart (hWrite : Readable write) (a b : α) : ToldApart (write a) (write b) :=
  fun _ _ hx hy h => congrArg write (hWrite.eq_of_append_eq hx hy h)

theorem comp (hWrite : Readable write) {f : β → α} (hf : ∀ {b c}, f b = f c → b = c) :
    Readable fun b => write (f b) where
  opens b := hWrite.opens (f b)
  eq_of_append_eq hx hy h := hf (hWrite.eq_of_append_eq hx hy h)

/-- A fixed label does not stand in the way of reading. -/
theorem field (hWrite : Readable write) (label : String) (hLabel : Opens label.toList) :
    Readable fun a => labelled label.toList (write a) where
  opens a := by
    rw [labelled, List.append_assoc]
    exact hLabel.append _
  eq_of_append_eq {a b x y} hx hy h := by
    simp only [labelled, List.append_assoc] at h
    exact hWrite.eq_of_append_eq hx hy (List.append_cancel_left (List.append_cancel_left h))

/-- A label that is written readably is read before its value. -/
theorem entry (hWrite : Readable write) (hOther : Readable writeOther) :
    Readable fun pair : α × β => labelled (write pair.1) (writeOther pair.2) where
  opens pair := by
    rw [labelled, List.append_assoc]
    exact (hWrite.opens pair.1).append _
  eq_of_append_eq {a b x y} hx hy h := by
    simp only [labelled, List.append_assoc] at h
    have hLabel : a.1 = b.1 :=
      hWrite.eq_of_append_eq (stops_cons.mpr rfl) (stops_cons.mpr rfl) h
    rw [hLabel] at h
    have hValue : a.2 = b.2 :=
      hOther.eq_of_append_eq hx hy (List.append_cancel_left (List.append_cancel_left h))
    exact Prod.ext hLabel hValue

end Readable

theorem readable_toDigits : Readable (Nat.toDigits 10) where
  opens n := by
    obtain ⟨c, rest, h⟩ := List.exists_cons_of_ne_nil (Nat.toDigits_ne_nil (n := n) (b := 10))
    have hDigit : c.isDigit := Nat.isDigit_of_mem_toDigits (by decide) (by decide)
      (h ▸ List.mem_cons_self)
    refine ⟨c, by rw [h]; rfl, fun hBracket => ?_⟩
    rw [(sign_of_mem_brackets hBracket).1] at hDigit
    exact Bool.noConfusion hDigit
  eq_of_append_eq hx hy h := by
    have hDigits (n : Nat) : ∀ c ∈ Nat.toDigits 10 n, c.isDigit = true := fun _ hc =>
      Nat.isDigit_of_mem_toDigits (by decide) (by decide) hc
    exact toDigits_inj (by decide) (by decide)
      (eq_of_append_eq_of_forall (hDigits _) (hDigits _) hx hy h)

theorem readable_truth :
    Readable fun truth : Bool => if truth then "true".toList else "false".toList where
  opens truth := by cases truth <;> exact ⟨_, rfl, by decide⟩
  eq_of_append_eq {a b x y} _ _ h := by
    cases a <;> cases b <;> simp_all

/-! ## Quoted texts -/

section Quoted

variable {hidden : Char → Bool} {c d : Char} {x y : List Char}

/-- The characters with a short form, each with the sign in it. -/
def shortForms : List (Char × Char) :=
  [('"', '"'), ('\\', '\\'), ('\n', 'n'), ('\r', 'r'), ('\t', 't'), ('\x00', '0')]

theorem mem_shortForms {sign : Char} (h : shortEscape? c = some sign) :
    (c, sign) ∈ shortForms := by
  unfold shortEscape? at h
  split at h <;> cases h <;> simp [shortForms]

theorem shortEscape?_inj {sign : Char} (hc : shortEscape? c = some sign)
    (hd : shortEscape? d = some sign) : c = d := by
  have hSigns : ∀ p ∈ shortForms, ∀ q ∈ shortForms, p.2 = q.2 → p.1 = q.1 := by decide
  exact hSigns _ (mem_shortForms hc) _ (mem_shortForms hd) rfl

/-- No short form looks like the beginning of a number. -/
theorem shortEscape?_ne_some_u (c : Char) : shortEscape? c ≠ some 'u' := by
  intro h
  have hSigns : ∀ p ∈ shortForms, p.2 ≠ 'u' := by decide
  exact hSigns _ (mem_shortForms h) rfl

/-- The three ways to write a character. -/
theorem escape_cases (hidden : Char → Bool) (c : Char) :
    (∃ sign, shortEscape? c = some sign ∧ escape hidden c = ['\\', sign]) ∨
    escape hidden c = ['\\', 'u', '\x7b'] ++ Nat.toDigits 16 c.toNat ++ ['\x7d'] ∨
    c ≠ '\\' ∧ c ≠ '"' ∧ escape hidden c = [c] := by
  unfold escape
  cases hShort : shortEscape? c with
  | some sign => exact Or.inl ⟨sign, rfl, rfl⟩
  | none =>
      by_cases hHidden : hidden c
      · exact Or.inr (Or.inl (if_pos hHidden))
      · refine Or.inr (Or.inr ⟨?_, ?_, if_neg hHidden⟩)
        · rintro rfl
          cases hShort
        · rintro rfl
          cases hShort

theorem escape_append_ne_quote : escape hidden c ++ x ≠ '"' :: y := by
  rcases escape_cases hidden c with ⟨sign, -, hc⟩ | hc | ⟨-, hQuote, hc⟩
  · simp [hc]
  · simp [hc]
  · simp [hc, hQuote]

/-- The number of a hidden character ends at the brace, which is no hexadecimal digit. -/
theorem eq_of_number_append_eq {m n : Nat}
    (h : Nat.toDigits 16 m ++ '\x7d' :: x = Nat.toDigits 16 n ++ '\x7d' :: y) : m = n := by
  have hDigits (k : Nat) : ∀ c ∈ Nat.toDigits 16 k, (c != '\x7d') = true := by
    intro c hc
    obtain ⟨digit, rfl⟩ := exists_eq_digitChar_of_mem_toDigits (by decide) hc
    exact bne_iff_ne.mpr (Nat.digitChar_ne _ (by decide))
  exact toDigits_inj (by decide) (by decide)
    (eq_of_append_eq_of_forall (hDigits m) (hDigits n) (by simp) (by simp) h)

/-- The first sign tells a character that stands for itself from the others, the second one a short
form from a number. -/
theorem eq_of_escape_append_eq (h : escape hidden c ++ x = escape hidden d ++ y) : c = d := by
  rcases escape_cases hidden c with ⟨sign, hSign, hc⟩ | hc | ⟨hcSlash, -, hc⟩ <;>
    rcases escape_cases hidden d with ⟨sign', hSign', hd⟩ | hd | ⟨hdSlash, -, hd⟩ <;>
    simp only [hc, hd, List.cons_append, List.append_assoc, List.nil_append, List.cons.injEq,
      true_and] at h
  · exact shortEscape?_inj hSign (h.1 ▸ hSign')
  · exact absurd (h.1 ▸ hSign) (shortEscape?_ne_some_u c)
  · exact absurd h.1.symm hdSlash
  · exact absurd (h.1 ▸ hSign') (shortEscape?_ne_some_u d)
  · exact Char.toNat_inj.mp (eq_of_number_append_eq h)
  · exact absurd h.1.symm hdSlash
  · exact absurd h.1 hcSlash
  · exact absurd h.1 hcSlash
  · exact h.1

/-- The closing quote is not taken for a part of the text, nor a part of the text for it. -/
theorem eq_of_flatMap_escape_append_eq {cs ds : List Char}
    (h : cs.flatMap (escape hidden) ++ '"' :: x = ds.flatMap (escape hidden) ++ '"' :: y) :
    cs = ds := by
  induction cs generalizing ds with
  | nil =>
      cases ds with
      | nil => rfl
      | cons d ds =>
          rw [List.flatMap_cons, List.append_assoc] at h
          exact absurd h.symm escape_append_ne_quote
  | cons c cs ih =>
      rw [List.flatMap_cons, List.append_assoc] at h
      cases ds with
      | nil => exact absurd h escape_append_ne_quote
      | cons d ds =>
          rw [List.flatMap_cons, List.append_assoc] at h
          obtain rfl := eq_of_escape_append_eq h
          rw [ih (List.append_cancel_left h)]

theorem readable_quoted (hidden : Char → Bool) : Readable (quoted hidden) where
  opens s := ⟨'"', rfl, by decide⟩
  eq_of_append_eq {s t x y} _ _ h := by
    simp only [quoted, quote, List.cons_append, List.append_assoc, List.cons.injEq, true_and,
      List.nil_append] at h
    exact String.toList_inj.mp (eq_of_flatMap_escape_append_eq h)

end Quoted

end HttpReply.Text
