import InterfaceGen.Text.Utf8
import InterfaceGen.Text.Lines

/-!
# Texts in files

A text that is written is read again: decoding undoes encoding, and unifying the line ends leaves a
text alone that has no carriage returns. No text that is read has any.
-/

namespace InterfaceGen.Text

namespace Utf8

theorem toNat_tail (n : Nat) : (tail n).toNat = 0x80 + n % 0x40 := by
  rw [tail, UInt8.toNat_ofNat']
  omega

theorem toNat_ofNat {n : Nat} (h : n < 0x100) : (UInt8.ofNat n).toNat = n := by
  rw [UInt8.toNat_ofNat']
  omega

/-- The numbers of characters leave out the surrogates. -/
theorem toNat_valid (c : Char) : c.toNat < 0xD800 ∨ 0xDFFF < c.toNat ∧ c.toNat < 0x110000 :=
  c.valid

/-! ## Lead bytes -/

section Lead

variable {n : Nat}

/-- The lead byte leaves room for the first continuation byte of the number. -/
def Lead.Admits (l : Lead) (n : Nat) : Prop :=
  l.low ≤ 0x80 + n % 0x40 ∧ 0x80 + n % 0x40 ≤ l.high

theorem lead?_one (h : n < 0x80) : lead? (UInt8.ofNat n) = some ⟨n, 0, 0, 0⟩ := by
  simp only [lead?, toNat_ofNat (Nat.lt_trans h (by decide)), if_pos h]

/-- The first of two bytes has the high bits, and admits the second. -/
theorem lead?_two (low : 0x80 ≤ n) (high : n < 0x800) :
    ∃ l, lead? (UInt8.ofNat (0xC0 + n / 0x40)) = some l ∧ l.bits = n / 0x40 ∧ l.tails = 1 ∧
      l.Admits n := by
  have byte : (UInt8.ofNat (0xC0 + n / 0x40)).toNat = 0xC0 + n / 0x40 := toNat_ofNat (by omega)
  simp only [lead?, byte]
  rw [if_neg (by omega), if_neg (by omega), if_pos (by omega)]
  exact ⟨_, rfl, by dsimp only; omega, rfl, by constructor <;> dsimp only <;> omega⟩

/-- So has the first of three, where the character is no surrogate. -/
theorem lead?_three (low : 0x800 ≤ n) (high : n < 0x10000) (valid : n < 0xD800 ∨ 0xDFFF < n) :
    ∃ l, lead? (UInt8.ofNat (0xE0 + n / 0x1000)) = some l ∧ l.bits = n / 0x1000 ∧ l.tails = 2 ∧
      l.Admits (n / 0x40) := by
  have byte : (UInt8.ofNat (0xE0 + n / 0x1000)).toNat = 0xE0 + n / 0x1000 := toNat_ofNat (by omega)
  simp only [lead?, byte]
  rw [if_neg (by omega), if_neg (by omega), if_neg (by omega)]
  repeat' split
  all_goals first
    | exact ⟨_, rfl, by dsimp only; omega, rfl, by constructor <;> dsimp only <;> omega⟩
    | omega

theorem lead?_four (low : 0x10000 ≤ n) (high : n < 0x110000) :
    ∃ l, lead? (UInt8.ofNat (0xF0 + n / 0x40000)) = some l ∧ l.bits = n / 0x40000 ∧ l.tails = 3 ∧
      l.Admits (n / 0x1000) := by
  have byte : (UInt8.ofNat (0xF0 + n / 0x40000)).toNat = 0xF0 + n / 0x40000 :=
    toNat_ofNat (by omega)
  simp only [lead?, byte]
  rw [if_neg (by omega), if_neg (by omega), if_neg (by omega), if_neg (by omega), if_neg (by omega),
    if_neg (by omega)]
  repeat' split
  all_goals first
    | exact ⟨_, rfl, by dsimp only; omega, rfl, by constructor <;> dsimp only <;> omega⟩
    | omega

end Lead

/-! ## Characters -/

/-- A lead is waited for with its bits and the bounds of the next byte. -/
theorem decodeFrom_lead {b : UInt8} {l : Lead} (h : lead? b = some l) (more : 0 < l.tails)
    (offset : Nat) (rest : List UInt8) :
    decodeFrom none offset (b :: rest) =
      decodeFrom (some ⟨b, offset, l.bits, l.tails, l.low, l.high⟩) (offset + 1) rest := by
  simp only [decodeFrom, h, if_neg (Nat.ne_of_gt more)]

/-- A tail within the bounds adds its bits. -/
theorem decodeFrom_tail {p : Pending} {n : Nat} (low : p.low ≤ 0x80 + n % 0x40)
    (high : 0x80 + n % 0x40 ≤ p.high) (more : 1 < p.missing) (offset : Nat) (rest : List UInt8) :
    decodeFrom (some p) offset (tail n :: rest) =
      decodeFrom (some ⟨p.first, p.start, p.bits * 0x40 + n % 0x40, p.missing - 1, 0x80, 0xBF⟩)
        (offset + 1) rest := by
  have bits : (0x80 + n % 0x40) % 0x40 = n % 0x40 := by omega
  rw [decodeFrom, toNat_tail, if_pos ⟨low, high⟩, bits, if_neg (by omega)]

/-- The last tail makes a character. -/
theorem decodeFrom_lastTail {p : Pending} {n : Nat} (low : p.low ≤ 0x80 + n % 0x40)
    (high : 0x80 + n % 0x40 ≤ p.high) (last : p.missing = 1) (offset : Nat) (rest : List UInt8) :
    decodeFrom (some p) offset (tail n :: rest) =
      (Char.ofNat (p.bits * 0x40 + n % 0x40) :: ·) <$> decodeFrom none (offset + 1) rest := by
  have bits : (0x80 + n % 0x40) % 0x40 = n % 0x40 := by omega
  rw [decodeFrom, toNat_tail, if_pos ⟨low, high⟩, bits, if_pos (by omega)]

theorem admits (n : Nat) : 0x80 ≤ 0x80 + n % 0x40 ∧ 0x80 + n % 0x40 ≤ 0xBF := by
  omega

section Numbers

variable {n : Nat} (offset : Nat) (rest : List UInt8)

theorem decodeFrom_two (low : 0x80 ≤ n) (high : n < 0x800) :
    decodeFrom none offset (UInt8.ofNat (0xC0 + n / 0x40) :: tail n :: rest) =
      (Char.ofNat n :: ·) <$> decodeFrom none (offset + 2) rest := by
  obtain ⟨l, lead, bits, tails, least, most⟩ := lead?_two low high
  have whole : l.bits * 0x40 + n % 0x40 = n := by omega
  rw [decodeFrom_lead lead (by omega), decodeFrom_lastTail least most tails]
  simp only [whole]

theorem decodeFrom_three (low : 0x800 ≤ n) (high : n < 0x10000)
    (valid : n < 0xD800 ∨ 0xDFFF < n) :
    decodeFrom none offset (UInt8.ofNat (0xE0 + n / 0x1000) :: tail (n / 0x40) :: tail n :: rest) =
      (Char.ofNat n :: ·) <$> decodeFrom none (offset + 3) rest := by
  obtain ⟨l, lead, bits, tails, least, most⟩ := lead?_three low high valid
  have whole : (l.bits * 0x40 + n / 0x40 % 0x40) * 0x40 + n % 0x40 = n := by omega
  rw [decodeFrom_lead lead (by omega), decodeFrom_tail least most (by dsimp only; omega),
    decodeFrom_lastTail (admits n).1 (admits n).2 (by dsimp only; omega)]
  simp only [whole]

theorem decodeFrom_four (low : 0x10000 ≤ n) (high : n < 0x110000) :
    decodeFrom none offset (UInt8.ofNat (0xF0 + n / 0x40000) :: tail (n / 0x1000) ::
        tail (n / 0x40) :: tail n :: rest) =
      (Char.ofNat n :: ·) <$> decodeFrom none (offset + 4) rest := by
  obtain ⟨l, lead, bits, tails, least, most⟩ := lead?_four low high
  have whole : ((l.bits * 0x40 + n / 0x1000 % 0x40) * 0x40 + n / 0x40 % 0x40) * 0x40 +
      n % 0x40 = n := by omega
  rw [decodeFrom_lead lead (by omega), decodeFrom_tail least most (by dsimp only; omega),
    decodeFrom_tail (admits _).1 (admits _).2 (by dsimp only; omega),
    decodeFrom_lastTail (admits n).1 (admits n).2 (by dsimp only; omega)]
  simp only [whole]

end Numbers

/-- The bytes of a character are read as this character. -/
theorem decodeFrom_encodeChar (c : Char) (offset : Nat) (rest : List UInt8) :
    decodeFrom none offset (encodeChar c ++ rest) =
      (c :: ·) <$> decodeFrom none (offset + (encodeChar c).length) rest := by
  have valid := toNat_valid c
  have back : Char.ofNat c.toNat = c := Char.ofNat_toNat c
  generalize number : c.toNat = n at valid back
  subst back
  simp only [encodeChar, number]
  split
  · next one => simp only [List.singleton_append, decodeFrom, lead?_one one, if_true]; rfl
  · split
    · next low high => exact decodeFrom_two offset rest (Nat.le_of_not_lt low) high
    · split
      · next _ low high =>
        exact decodeFrom_three offset rest (Nat.le_of_not_lt low) high (by omega)
      · next _ _ low => exact decodeFrom_four offset rest (Nat.le_of_not_lt low) (by omega)

/-- A text is read from its bytes. -/
theorem decode_encode (text : List Char) : decode (encode text) = .ok text := by
  have from' : ∀ offset, decodeFrom none offset (encode text) = .ok text := by
    induction text with
    | nil => exact fun _ => rfl
    | cons c text ih =>
      intro offset
      rw [encode, List.flatMap_cons, decodeFrom_encodeChar]
      rw [encode] at ih
      rw [ih]
      rfl
  exact from' 0

end Utf8

/-! ## Line ends -/

theorem unifyBreaks_cons {c : Char} (h : c ≠ '\r') (rest : List Char) :
    unifyBreaks (c :: rest) = c :: unifyBreaks rest := by
  rw [unifyBreaks]
  · rw [if_neg h]
  · exact fun _ same => absurd same h

/-- A text without carriage returns stays as it is. -/
theorem unifyBreaks_of_notMem {text : List Char} (h : '\r' ∉ text) : unifyBreaks text = text := by
  induction text with
  | nil => rfl
  | cons c rest ih =>
    rw [List.mem_cons, not_or] at h
    rw [unifyBreaks_cons (Ne.symm h.1), ih h.2]

theorem cr_notMem_unifyBreaks (text : List Char) : '\r' ∉ unifyBreaks text := by
  fun_induction unifyBreaks text with
  | case1 => exact List.not_mem_nil
  | case2 rest ih => simp [ih]
  | case3 c rest _ ih =>
    rw [List.mem_cons, not_or]
    refine ⟨?_, ih⟩
    split
    · decide
    · next differ => exact Ne.symm differ

/-- Where the first text does not end with a carriage return no line end is broken up. -/
theorem unifyBreaks_append {first : List Char} (h : first.getLast? ≠ some '\r')
    (second : List Char) :
    unifyBreaks (first ++ second) = unifyBreaks first ++ unifyBreaks second := by
  have last : ∀ {c : Char} {rest : List Char}, (c :: rest).getLast? ≠ some '\r' →
      rest.getLast? ≠ some '\r' := by
    intro c rest differ same
    rw [List.getLast?_cons, same] at differ
    exact differ rfl
  fun_induction unifyBreaks first with
  | case1 => rfl
  | case2 rest ih =>
    rw [List.cons_append, List.cons_append, unifyBreaks, ih (last (last h))]
    rfl
  | case3 c rest other ih =>
    rw [List.cons_append, unifyBreaks, ih (last h)]
    · rfl
    · intro after return_ feed
      cases rest with
      | nil => exact h (by rw [return_]; rfl)
      | cons d rest => exact other rest return_ (by rw [(List.cons.inj feed).1])

/-! ## Texts on one line -/

/-- The text has no line breaks. -/
def IsOneLine (text : String) : Prop :=
  ∀ c ∈ text.toList, c ≠ '\n' ∧ c ≠ '\r'

instance : DecidablePred IsOneLine :=
  fun text => List.decidableBAll (fun c => c ≠ '\n' ∧ c ≠ '\r') text.toList

theorem IsOneLine.append {first second : String} (hf : IsOneLine first) (hs : IsOneLine second) :
    IsOneLine (first ++ second) := by
  intro c hc
  rw [String.toList_append, List.mem_append] at hc
  exact hc.elim (hf c) (hs c)

theorem IsOneLine.of_subset {text part : String} (h : IsOneLine text)
    (subset : part.toList ⊆ text.toList) : IsOneLine part :=
  fun c hc => h c (subset hc)

end InterfaceGen.Text
