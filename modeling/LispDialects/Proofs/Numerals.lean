import LispDialects.Vocabulary
import Mathlib.Data.Nat.Digits.Lemmas

/-!
# Texts that are read as numbers

The numeric vocabulary reads a text as a number when it is written as one: with a sign or without,
and with one or more of the ten ASCII digits. `Text.WrittenInteger` is this grammar, and the number
is the decimal value of the digits under the sign. A text of more than 4300 digits is refused, and
every other text stays what it is (`Vocabulary.ofText_numeric`).

An integer is written with as few digits as its decimal value has, so it is read back from its own
text, and a text that was read once is read in the same way from what it was read as.
-/

namespace LispDialects

namespace Text

/-! ## Written integers -/

/-- The marks of a sign, none at all among them, and the factor that each stands for. -/
inductive SignMark : List Char → Int → Prop where
  | none : SignMark [] 1
  | plus : SignMark ['+'] 1
  | minus : SignMark ['-'] (-1)

/-- The text is a mark of the sign followed by the digits, which are one or more from `0` to `9`. -/
structure WrittenInteger (t : String) (sign : Int) (digits : List Char) : Prop where
  text : ∃ mark, SignMark mark sign ∧ t.toList = mark ++ digits
  nonempty : digits ≠ []
  ascii : ∀ c ∈ digits, '0' ≤ c ∧ c ≤ '9'

/-- The decimal value of digits: the last one counts for itself, the one before it ten times as
much, and so on. -/
def decimalValue (digits : List Char) : Nat :=
  Nat.ofDigits 10 (digits.map fun c => c.toNat - '0'.toNat).reverse

/-- Adding up from the left gives the decimal value. -/
theorem digitsValue_eq_decimalValue (digits : List Char) :
    digitsValue digits = decimalValue digits := by
  unfold digitsValue decimalValue
  induction digits with
  | nil => rfl
  | cons c rest ih =>
    rw [Nat.ofDigitChars_cons, Nat.ofDigitChars_eq_ofDigitChars_zero, ih, List.map_cons,
      Nat.ofDigits_reverse_cons, List.length_map, Nat.mul_zero, Nat.zero_add, Nat.add_comm]

theorem isDigit_iff {c : Char} : c.isDigit = true ↔ '0' ≤ c ∧ c ≤ '9' := by
  simp only [Char.isDigit, Bool.and_eq_true, decide_eq_true_eq, Char.le_def]

/-- An ASCII digit counts for less than ten. -/
theorem digit_lt_ten {c : Char} (hc : '0' ≤ c ∧ c ≤ '9') : c.toNat - '0'.toNat < 10 := by
  have hle : c.toNat ≤ '9'.toNat := hc.2
  have hnine : '9'.toNat = 57 := rfl
  have hzero : '0'.toNat = 48 := rfl
  omega

/-- What the digits are worth is less than ten to the power of their number. -/
theorem decimalValue_lt {digits : List Char} (hascii : ∀ c ∈ digits, '0' ≤ c ∧ c ≤ '9') :
    decimalValue digits < 10 ^ digits.length := by
  have hlt : ∀ d ∈ (digits.map fun c => c.toNat - '0'.toNat).reverse, d < 10 := by
    intro d hd
    obtain ⟨c, hc, rfl⟩ := List.mem_map.1 (List.mem_reverse.1 hd)
    exact digit_lt_ten (hascii c hc)
  have hvalue := Nat.ofDigits_lt_base_pow_length (by decide : 1 < 10) hlt
  rwa [List.length_reverse, List.length_map] at hvalue

/-! ## Numerals -/

/-- A sign is told from the digits that follow it. -/
theorem splitSign_append {mark digits : List Char} {sign : Int} (hmark : SignMark mark sign)
    (hnonempty : digits ≠ []) (hascii : ∀ c ∈ digits, '0' ≤ c ∧ c ≤ '9') :
    splitSign (mark ++ digits) = (decide (sign = -1), digits) := by
  cases hmark with
  | none =>
    -- without a mark the text begins with a digit, which is no mark
    cases digits with
    | nil => exact absurd rfl hnonempty
    | cons c rest =>
      have hc := hascii c List.mem_cons_self
      show splitSign (c :: rest) = (false, c :: rest)
      unfold splitSign
      split
      · rename_i heq
        cases heq
        exact absurd hc (by decide)
      · rename_i heq
        cases heq
        exact absurd hc (by decide)
      · rfl
  | plus => rfl
  | minus => rfl

/-- What the sign was split off from begins with a mark of it. -/
theorem exists_mark (cs : List Char) : ∃ mark sign, SignMark mark sign ∧
    cs = mark ++ (splitSign cs).2 := by
  unfold splitSign
  split
  · exact ⟨['+'], 1, .plus, rfl⟩
  · exact ⟨['-'], -1, .minus, rfl⟩
  · exact ⟨[], 1, .none, rfl⟩

/-- What is recognised as a numeral is a written integer. -/
theorem exists_writtenInteger {t : String} (h : isNumeral t.toList = true) :
    ∃ sign digits, WrittenInteger t sign digits := by
  obtain ⟨mark, sign, hmark, htext⟩ := exists_mark t.toList
  simp only [isNumeral, Bool.and_eq_true, Bool.not_eq_true', List.isEmpty_eq_false_iff,
    List.all_eq_true] at h
  obtain ⟨hnonempty, hdigits⟩ := h
  have hascii : ∀ c ∈ (splitSign t.toList).2, '0' ≤ c ∧ c ≤ '9' := by
    intro c hc
    exact isDigit_iff.1 (hdigits c hc)
  exact ⟨sign, _, ⟨mark, hmark, htext⟩, hnonempty, hascii⟩

namespace WrittenInteger

variable {t : String} {sign : Int} {digits : List Char}

/-- The sign and the digits are found in the text. -/
theorem splitSign_eq (h : WrittenInteger t sign digits) :
    splitSign t.toList = (decide (sign = -1), digits) := by
  obtain ⟨⟨mark, hmark, htext⟩, hnonempty, hascii⟩ := h
  rw [htext]
  exact splitSign_append hmark hnonempty hascii

/-- The text is worth the decimal value of the digits under the sign. -/
theorem numeralValue_eq (h : WrittenInteger t sign digits) :
    numeralValue t.toList = sign * decimalValue digits := by
  obtain ⟨mark, hmark, _⟩ := h.text
  simp only [numeralValue, h.splitSign_eq, digitsValue_eq_decimalValue]
  cases hmark <;> simp

/-- A written integer has no characters but signs and digits. -/
theorem sign_or_digit (h : WrittenInteger t sign digits) {c : Char} (hc : c ∈ t.toList) :
    c = '+' ∨ c = '-' ∨ '0' ≤ c ∧ c ≤ '9' := by
  obtain ⟨⟨mark, hmark, htext⟩, _, hascii⟩ := h
  rw [htext, List.mem_append] at hc
  rcases hc with hc | hc
  · cases hmark <;> simp_all
  · exact .inr (.inr (hascii c hc))

/-- A written integer is recognised as a numeral. -/
theorem isNumeral_eq_true (h : WrittenInteger t sign digits) : isNumeral t.toList = true := by
  simp only [isNumeral, h.splitSign_eq, Bool.and_eq_true, Bool.not_eq_true',
    List.isEmpty_eq_false_iff, List.all_eq_true]
  refine ⟨h.nonempty, ?_⟩
  intro c hc
  exact isDigit_iff.2 (h.ascii c hc)

/-- A written integer is read as its decimal value under its sign, unless it has too many digits. -/
theorem readNumeral_eq (h : WrittenInteger t sign digits) :
    readNumeral t =
      if digits.length ≤ maxDigits then .integer (sign * decimalValue digits) else .tooLong := by
  have hcount : numeralDigits t.toList = digits.length := by
    simp only [numeralDigits, h.splitSign_eq]
  rw [readNumeral, if_pos h.isNumeral_eq_true, h.numeralValue_eq, hcount]

end WrittenInteger

/-- Exactly the written integers are recognised as numerals. -/
theorem isNumeral_iff {t : String} :
    isNumeral t.toList = true ↔ ∃ sign digits, WrittenInteger t sign digits := by
  constructor
  · exact exists_writtenInteger
  · rintro ⟨sign, digits, hwritten⟩
    exact hwritten.isNumeral_eq_true

/-- Nothing else is read as a number. -/
theorem readNumeral_eq_noNumeral {t : String}
    (h : ∀ sign digits, ¬ WrittenInteger t sign digits) : readNumeral t = .noNumeral := by
  rw [readNumeral, if_neg]
  rw [isNumeral_iff]
  rintro ⟨sign, digits, hwritten⟩
  exact h sign digits hwritten

/-! ## The texts of integers -/

/-- The text of an integer is one: its digits are those of the absolute value. -/
theorem exists_writtenInteger_toString (n : Int) :
    ∃ sign, WrittenInteger (toString n) sign (Nat.toDigits 10 n.natAbs) ∧
      sign * n.natAbs = n := by
  have hnonempty : Nat.toDigits 10 n.natAbs ≠ [] := Nat.toDigits_ne_nil
  have hascii : ∀ c ∈ Nat.toDigits 10 n.natAbs, '0' ≤ c ∧ c ≤ '9' := by
    intro c hc
    have hdigit : c.isDigit = true :=
      Nat.isDigit_of_mem_toDigits (by decide) (by decide) hc
    exact isDigit_iff.1 hdigit
  rw [Int.toString_eq_repr, Int.repr_eq_if]
  -- a minus is written for negative numbers only
  split
  · rename_i hsign
    refine ⟨1, ⟨⟨[], .none, ?_⟩, hnonempty, hascii⟩, by omega⟩
    have habs : n.toNat = n.natAbs := by omega
    simp [habs, Nat.repr_eq_ofList_toDigits]
  · rename_i hsign
    refine ⟨-1, ⟨⟨['-'], .minus, ?_⟩, hnonempty, hascii⟩, by omega⟩
    have habs : (-n).toNat = n.natAbs := by omega
    simp [habs, Nat.repr_eq_ofList_toDigits]

/-- The digits of a number are worth the number. -/
theorem decimalValue_toDigits (n : Nat) : decimalValue (Nat.toDigits 10 n) = n := by
  rw [← digitsValue_eq_decimalValue]
  exact Nat.ofDigitChars_ten_toDigits

/-- The text of an integer is worth that integer. -/
theorem numeralValue_toString (n : Int) : numeralValue (toString n).toList = n := by
  obtain ⟨sign, hwritten, hsign⟩ := exists_writtenInteger_toString n
  rw [hwritten.numeralValue_eq, decimalValue_toDigits, hsign]

/-- Different integers have different texts. -/
theorem toString_injective : Function.Injective (toString : Int → String) := by
  intro m n heq
  rw [← numeralValue_toString m, heq, numeralValue_toString]

/-- An integer of few enough digits is read back from its text. -/
theorem readNumeral_toString {n : Int} (h : (Nat.digits 10 n.natAbs).length ≤ maxDigits) :
    readNumeral (toString n) = .integer n := by
  obtain ⟨sign, hwritten, hsign⟩ := exists_writtenInteger_toString n
  have hcount : (Nat.toDigits 10 n.natAbs).length ≤ maxDigits := by
    rw [Nat.length_toDigits_le_iff (by decide) (by decide)]
    exact (Nat.digits_length_le_iff (by decide) _).1 h
  rw [hwritten.readNumeral_eq, if_pos hcount, decimalValue_toDigits, hsign]

/-- What a written integer is read as has no more digits than the text. -/
theorem WrittenInteger.digits_length_le {t : String} {sign : Int} {digits : List Char}
    (h : WrittenInteger t sign digits) :
    (Nat.digits 10 (sign * decimalValue digits).natAbs).length ≤ digits.length := by
  obtain ⟨⟨mark, hmark, _⟩, _, hascii⟩ := h
  have habs : (sign * decimalValue digits).natAbs = decimalValue digits := by
    cases hmark <;> simp
  rw [habs, Nat.digits_length_le_iff (by decide)]
  exact decimalValue_lt hascii

end Text

/-! ## Reading and writing -/

namespace Vocabulary

open Text

/-- A written integer is what it is worth, or too long. -/
theorem ofText_written {t : String} {sign : Int} {digits : List Char}
    (h : WrittenInteger t sign digits) :
    numeric.ofText (.text t) =
      if digits.length ≤ 4300 then .ok (.integer (sign * decimalValue digits))
      else .error .numeralTooLong := by
  have hread : readNumeral t =
      if digits.length ≤ 4300 then .integer (sign * decimalValue digits) else .tooLong :=
    h.readNumeral_eq
  simp only [ofText, hread]
  by_cases hle : digits.length ≤ 4300 <;> simp only [hle, if_true, if_false]

/-- Any other text is itself. -/
theorem ofText_unwritten {t : String} (h : ∀ sign digits, ¬ WrittenInteger t sign digits) :
    numeric.ofText (.text t) = .ok (.text t) := by
  simp only [ofText, readNumeral_eq_noNumeral h]

/-- An integer of at most 4300 digits is read back from its text. -/
theorem ofText_toText_integer {n : Int} (h : (Nat.digits 10 n.natAbs).length ≤ 4300) :
    numeric.ofText (.text (numeric.toText (.integer n))) = .ok (.integer n) := by
  have hread : readNumeral (toString n) = .integer n := readNumeral_toString h
  simp only [toText, Datum.display, Datum.code, ofText, hread]

/-- The numeric vocabulary reads exactly the written integers as numbers, and reading and writing
fit together.

* A text that is a sign, or none, and ASCII digits is read as the decimal value of the digits under
  the sign if there are at most 4300 of them, and refused if there are more.
* A text is read as a number in no other case. Every text that is no written integer is read as
  itself.
* An integer of at most 4300 digits, and a text that is no written integer, is read back from its
  text.
* What any text is read as is read back from its own text. -/
theorem ofText_numeric :
    (∀ t sign digits, WrittenInteger t sign digits →
        (digits.length ≤ 4300 →
          numeric.ofText (.text t) = .ok (.integer (sign * decimalValue digits))) ∧
        (4300 < digits.length → numeric.ofText (.text t) = .error .numeralTooLong ∧
          Error.numeralTooLong.kind = .outOfBounds)) ∧
      (∀ t, (∃ n, numeric.ofText (.text t) = .ok (.integer n)) ↔
        ∃ sign digits, WrittenInteger t sign digits ∧ digits.length ≤ 4300) ∧
      (∀ t, (∀ sign digits, ¬ WrittenInteger t sign digits) →
        numeric.ofText (.text t) = .ok (.text t) ∧
          numeric.ofText (.text (numeric.toText (.text t))) = .ok (.text t)) ∧
      (∀ n : Int, (Nat.digits 10 n.natAbs).length ≤ 4300 →
        numeric.ofText (.text (numeric.toText (.integer n))) = .ok (.integer n)) ∧
      ∀ t d, numeric.ofText (.text t) = .ok d →
        numeric.ofText (.text (numeric.toText d)) = .ok d := by
  refine ⟨?_, ?_, ?_, ?_, ?_⟩
  · intro t sign digits h
    constructor
    · intro hle
      rw [ofText_written h, if_pos hle]
    · intro hlt
      rw [ofText_written h, if_neg (by omega)]
      exact ⟨rfl, rfl⟩
  · intro t
    constructor
    · rintro ⟨n, hn⟩
      by_contra hnone
      by_cases h : ∃ sign digits, WrittenInteger t sign digits
      · obtain ⟨sign, digits, hwritten⟩ := h
        have hlong : ¬ digits.length ≤ 4300 := by
          intro hle
          exact hnone ⟨sign, digits, hwritten, hle⟩
        rw [ofText_written hwritten, if_neg hlong] at hn
        cases hn
      · rw [ofText_unwritten (by simpa using h)] at hn
        cases hn
    · rintro ⟨sign, digits, hwritten, hle⟩
      refine ⟨sign * decimalValue digits, ?_⟩
      rw [ofText_written hwritten, if_pos hle]
  · intro t h
    -- a text is written as it is, so both are the same reading
    have hself := ofText_unwritten h
    exact ⟨hself, hself⟩
  · intro n hn
    exact ofText_toText_integer hn
  · intro t d hd
    by_cases h : ∃ sign digits, WrittenInteger t sign digits
    · obtain ⟨sign, digits, hwritten⟩ := h
      rw [ofText_written hwritten] at hd
      split at hd
      · rename_i hle
        cases hd
        have hfew := hwritten.digits_length_le.trans hle
        exact ofText_toText_integer hfew
      · cases hd
    · have hself := ofText_unwritten (by simpa using h)
      rw [hself] at hd
      cases hd
      exact hself

/-- A minus and leading zeros before the digits that count, one digit too many, and digits that are
not ASCII. -/
theorem ofText_numeric_zeros :
    numeric.ofText (.text "-0042") = .ok (.integer (-42)) ∧
      numeric.ofText (.text (String.ofList (List.replicate 4301 '0'))) =
        .error .numeralTooLong ∧
      numeric.ofText (.text "４２") = .ok (.text "４２") := by
  obtain ⟨hwritten, _, hother, _⟩ := ofText_numeric
  have hminus : WrittenInteger "-0042" (-1) ['0', '0', '4', '2'] :=
    ⟨⟨['-'], .minus, by decide⟩, by simp, by simp⟩
  have hzeros : ∀ n, 4300 < n →
      numeric.ofText (.text (String.ofList (List.replicate n '0'))) = .error .numeralTooLong := by
    intro n hn
    have hdigits : WrittenInteger (String.ofList (List.replicate n '0')) 1
        (List.replicate n '0') := by
      have hnonempty : List.replicate n '0' ≠ [] := by
        rw [Ne, List.replicate_eq_nil_iff]
        omega
      refine ⟨⟨[], .none, String.toList_ofList⟩, hnonempty, ?_⟩
      intro c hc
      rw [List.eq_of_mem_replicate hc]
      decide
    exact ((hwritten _ _ _ hdigits).2 (by rwa [List.length_replicate])).1
  refine ⟨(hwritten _ _ _ hminus).1 (by decide), hzeros 4301 (by decide), (hother "４２" ?_).1⟩
  intro sign digits hdigits
  -- a written integer would be recognised as a numeral
  have hread : readNumeral "４２" = .noNumeral := by decide
  rw [hdigits.readNumeral_eq] at hread
  split at hread <;> cases hread

end Vocabulary

end LispDialects
