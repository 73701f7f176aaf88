import InterfaceGen.Engine
import InterfaceGen.Text.Hexadecimal
import Mathlib.Data.Nat.Digits.Lemmas

/-!
# What a fingerprint is the value of

A fingerprint is taken step by step, with a shift, a subtraction and a mask. All steps together are
one number modulo a power of two: the characters of the text as the digits of a numeral at 31,
`value_eq_sum`. Everything else about fingerprints is read off this sum: that of a text from
those of its parts, that of a narrow one from a wide one, and that blocks of one length and one
fingerprint may stand for each other in any text. The numeral in which the number is shown is the
only one for it, `isNumeral_iff`, so equal fingerprints mean equal numbers.
-/

namespace InterfaceGen.Fingerprint

open InterfaceGen.Text

/-! ## Numerals -/

/-- The digits of a hexadecimal numeral in small letters. -/
def smallDigits : List Char :=
  "0123456789abcdef".toList

/-- The number that a row of hexadecimal digits stands for. -/
def ofNumeral (digits : List Char) : Nat :=
  digits.foldl (fun n c => 16 * n + (hexValue? c).getD 0) 0

/-- A numeral in small letters, without zeros in front. -/
structure IsNumeral (digits : List Char) : Prop where
  nonempty : digits ≠ []
  small : ∀ c ∈ digits, c ∈ smallDigits
  leading : digits.head? = some '0' → digits = ['0']

/-- The digits below sixteen are read back, and written small. -/
theorem hexValue?_digitChar :
    ∀ d < 16, hexValue? d.digitChar = some d ∧ d.digitChar ∈ smallDigits := by
  decide

/-- Every small digit is one of a number below sixteen. -/
theorem exists_digit : ∀ c ∈ smallDigits, ∃ d < 16, d.digitChar = c := by
  decide

/-- A last digit makes a numeral sixteen times as great, and adds to it. -/
theorem ofNumeral_concat (digits : List Char) {d : Nat} (small : d < 16) :
    ofNumeral (digits ++ [d.digitChar]) = 16 * ofNumeral digits + d := by
  simp [ofNumeral, (hexValue?_digitChar d small).1]

theorem toDigits_concat {n d : Nat} (filled : 0 < n) (small : d < 16) :
    Nat.toDigits 16 (16 * n + d) = Nat.toDigits 16 n ++ [d.digitChar] := by
  rw [← Nat.toDigits_append_toDigits (by decide) filled small, Nat.toDigits_of_lt_base small]

/-- Each number has a numeral, which begins with a zero only if it is zero. -/
theorem isNumeral_toDigits (n : Nat) :
    IsNumeral (Nat.toDigits 16 n) ∧ ofNumeral (Nat.toDigits 16 n) = n ∧
      ((Nat.toDigits 16 n).head? = some '0' → n = 0) := by
  induction n using Nat.strong_induction_on with
  | _ n ih =>
    by_cases short : n < 16
    · have digit := (hexValue?_digitChar n short).2
      have single : Nat.toDigits 16 n = [] ++ [n.digitChar] := Nat.toDigits_of_lt_base short
      rw [single, ofNumeral_concat [] short]
      refine ⟨⟨by simp, by simpa using digit, fun head => by simpa using head⟩, ?_, fun head => ?_⟩
      · simp [ofNumeral]
      · exact Nat.digitChar_eq_zero.1 (by simpa using head)
    · obtain ⟨front, last, filled, small, rfl⟩ :
          ∃ front last, 0 < front ∧ last < 16 ∧ n = 16 * front + last :=
        ⟨n / 16, n % 16, by omega, by omega, by omega⟩
      obtain ⟨⟨nonempty, digits, -⟩, number, zero⟩ := ih front (by omega)
      have digit := (hexValue?_digitChar last small).2
      rw [toDigits_concat filled small]
      have head : (Nat.toDigits 16 front ++ [last.digitChar]).head? ≠ some '0' := by
        rw [List.head?_append_of_ne_nil _ nonempty]
        exact fun head => absurd (zero head) (by omega)
      refine ⟨⟨by simp, ?_, fun h => absurd h head⟩, ?_, fun h => absurd h head⟩
      · exact List.forall_mem_append.2 ⟨digits, List.forall_mem_singleton.2 digit⟩
      · rw [ofNumeral_concat _ small, number]

/-- A numeral is what its number is written as. -/
theorem IsNumeral.eq_toDigits {digits : List Char} (h : IsNumeral digits) :
    (digits = ['0'] ∨ 0 < ofNumeral digits) ∧ Nat.toDigits 16 (ofNumeral digits) = digits := by
  induction digits using List.reverseRecOn with
  | nil => exact absurd rfl h.nonempty
  | append_singleton front c ih =>
    obtain ⟨⟨digits, letter⟩, leading⟩ := And.intro (List.forall_mem_append.1 h.small) h.leading
    obtain ⟨d, small, rfl⟩ := exists_digit c (List.forall_mem_singleton.1 letter)
    rw [ofNumeral_concat front small]
    by_cases single : front = []
    · subst single
      have zero : ofNumeral [] = 0 := rfl
      rw [zero, Nat.mul_zero, Nat.zero_add, Nat.toDigits_of_lt_base small]
      refine ⟨?_, rfl⟩
      rcases Nat.eq_zero_or_pos d with rfl | positive
      · exact .inl rfl
      · exact .inr positive
    · rw [List.head?_append_of_ne_nil _ single] at leading
      have some : front.head? ≠ some '0' := fun head => by
        simpa [single] using congrArg List.length (leading head)
      obtain ⟨zero | filled, same⟩ := ih ⟨single, digits, fun head => absurd head some⟩
      · exact absurd (congrArg List.head? zero) some
      · exact ⟨.inr (by omega), by rw [toDigits_concat filled small, same]⟩

/-- Each number has exactly one numeral, the one that it is shown in. -/
theorem isNumeral_iff {digits : List Char} {n : Nat} :
    IsNumeral digits ∧ ofNumeral digits = n ↔ (hex n).toList = digits := by
  rw [hex, String.toList_ofList]
  constructor
  · rintro ⟨numeral, rfl⟩
    exact numeral.eq_toDigits.2
  · rintro rfl
    exact ⟨(isNumeral_toDigits n).1, (isNumeral_toDigits n).2.1⟩

/-- Different numbers are written differently. -/
theorem hex_inj {n m : Nat} : hex n = hex m ↔ n = m := by
  refine ⟨fun same => ?_, congrArg hex⟩
  rw [← (isNumeral_iff.2 (congrArg String.toList same)).2]
  exact (isNumeral_iff.2 rfl).2

/-! ## The sum -/

/-- The value of the characters at 31, without a bound. -/
def sum (text : List Char) : Nat :=
  Nat.ofDigits 31 (text.reverse.map Char.toNat)

/-- The first of two texts counts with a power for each character of the second. -/
theorem sum_append (first second : List Char) :
    sum (first ++ second) = sum first * 31 ^ second.length + sum second := by
  rw [sum, List.reverse_append, List.map_append, Nat.ofDigits_append, List.length_map,
    List.length_reverse, Nat.add_comm, Nat.mul_comm]
  rfl

theorem sum_singleton (c : Char) : sum [c] = c.toNat :=
  Nat.ofDigits_singleton

/-- The value is the sum of the text, modulo the power of two. -/
theorem value_eq_sum (bits : Nat) (text : List Char) : value bits text = sum text % 2 ^ bits := by
  induction text using List.reverseRecOn with
  | nil => simp [value, sum]
  | append_singleton front c ih =>
    rw [value_snoc, sum_append, sum_singleton, ih, List.length_singleton, Nat.pow_one, Nat.mul_comm,
      Nat.pow_eq, Nat.add_mod, Nat.mod_mul_mod, ← Nat.add_mod]

/-- The steps that a fingerprint is taken in. -/
theorem value_eq_masked (bits : Nat) (text : List Char) :
    value bits text =
      text.foldl (fun h c => ((h <<< 5) - h + c.toNat) &&& ((1 <<< bits) - 1)) 0 := by
  unfold value
  congr 1
  funext h c
  have shifted : (h <<< 5) - h = 31 * h := by
    rw [Nat.shiftLeft_eq]
    omega
  rw [shifted, Nat.one_shiftLeft, Nat.and_two_pow_sub_one_eq_mod, lowBits_eq_mod, Nat.pow_eq]

/-- The value of two texts is told from their values and the length of the second. -/
theorem value_append (bits : Nat) (first second : List Char) :
    value bits (first ++ second) =
      (value bits first * 31 ^ second.length + value bits second) % 2 ^ bits := by
  rw [value_eq_sum, value_eq_sum, value_eq_sum, sum_append, Nat.add_mod_mod, Nat.add_mod,
    ← Nat.mod_mul_mod, ← Nat.add_mod]

/-- A block may stand for one of its length and value in every text. -/
theorem value_replace {bits : Nat} {block other : List Char} (long : block.length = other.length)
    (same : value bits block = value bits other) (front back : List Char) :
    value bits (front ++ (block ++ back)) = value bits (front ++ (other ++ back)) := by
  rw [value_append, value_append bits block, value_append bits front, value_append bits other,
    List.length_append, List.length_append, long, same]

/-- A narrow value is what is left of a wide one. -/
theorem value_of_le {bits wider : Nat} (le : bits ≤ wider) (text : List Char) :
    value bits text = value wider text % 2 ^ bits := by
  rw [value_eq_sum, value_eq_sum, Nat.mod_mod_of_dvd _ (Nat.pow_dvd_pow 2 le)]

/-! ## What is shown -/

/-- The fingerprint of this width is shown, and is the numeral of the number. -/
def Shows (text : String) (bits : Int) (n : Nat) : Prop :=
  ∃ shown, ofWidth text bits = .ok shown ∧ IsNumeral shown.toList ∧ ofNumeral shown.toList = n

/-- There is room for a number of this width. -/
def HasRoom (bits : Int) : Prop :=
  0 ≤ bits ∧ bits < memoryLimit

/-- Whether there is a fingerprint hangs on the width alone. -/
theorem ofWidth_cases (bits : Int) :
    (HasRoom bits ∧ ∀ text, ofWidth text bits = .ok (hex (value bits.toNat text.toList))) ∨
      ¬ HasRoom bits ∧ ∃ error, ∀ text, ofWidth text bits = .error error := by
  have limits : memoryLimit ≤ widthLimit := by decide
  unfold HasRoom ofWidth
  by_cases negative : bits < 0
  · exact .inr ⟨by omega, .negativeWidth, fun _ => if_pos negative⟩
  by_cases beyond : widthLimit < bits
  · exact .inr ⟨by omega, .beyondNumbers, fun _ => by rw [if_neg negative, if_pos beyond]⟩
  by_cases full : memoryLimit ≤ bits
  · refine .inr ⟨by omega, .noMemory, fun _ => ?_⟩
    rw [if_neg negative, if_neg beyond, if_pos full]
  · refine .inl ⟨by omega, fun _ => ?_⟩
    rw [if_neg negative, if_neg beyond, if_neg full]

/-- A fingerprint shows the value of its text exactly if there is room for the width. -/
theorem shows_iff {text : String} {bits : Int} {n : Nat} :
    Shows text bits n ↔ HasRoom bits ∧ value bits.toNat text.toList = n := by
  have numeral := (@isNumeral_iff _ (value bits.toNat text.toList)).2 rfl
  unfold Shows
  rcases ofWidth_cases bits with ⟨room, answer⟩ | ⟨full, error, answer⟩
  · rw [answer]
    constructor
    · rintro ⟨_, ⟨⟩, -, rfl⟩
      exact ⟨room, numeral.2.symm⟩
    · rintro ⟨-, rfl⟩
      exact ⟨_, rfl, numeral⟩
  · simp [answer, full]

/-- Fingerprints are equal where the numbers are. -/
theorem ofWidth_eq_iff {text other : String} {bits : Int} :
    ofWidth text bits = ofWidth other bits ↔
      (HasRoom bits → value bits.toNat text.toList = value bits.toNat other.toList) := by
  rcases ofWidth_cases bits with ⟨room, answer⟩ | ⟨full, error, answer⟩
  · simp only [answer, Except.ok.injEq, hex_inj, room, forall_const]
  · simp [answer, full]

/-- A block may be replaced by one of its length and fingerprint, at any width. -/
theorem ofWidth_replace {block other : String} {bits : Int} (long : block.length = other.length)
    (same : ofWidth block bits = ofWidth other bits) (front back : String) :
    ofWidth (front ++ block ++ back) bits = ofWidth (front ++ other ++ back) bits := by
  rw [ofWidth_eq_iff] at same ⊢
  intro room
  simp only [String.toList_append, List.append_assoc]
  exact value_replace (by rwa [String.length_toList, String.length_toList]) (same room) _ _

/-- The fingerprint is that of 64 bits. -/
theorem ofWidth_standard (text : String) : ofWidth text 64 = .ok (fingerprint text) := by
  rcases ofWidth_cases 64 with ⟨-, answer⟩ | ⟨full, -⟩
  · exact answer text
  · exact absurd ⟨by decide, by decide⟩ full

/-- So it is for the fingerprint of 64 bits. -/
theorem fingerprint_replace {block other : String} (long : block.length = other.length)
    (same : fingerprint block = fingerprint other) (front back : String) :
    fingerprint (front ++ block ++ back) = fingerprint (front ++ other ++ back) := by
  apply Except.ok.inj (ε := FingerprintError)
  rw [← ofWidth_standard, ← ofWidth_standard]
  refine ofWidth_replace long ?_ front back
  rw [ofWidth_standard, ofWidth_standard, same]

/-- A fingerprint is the value of its text as a polynomial at 31, in arithmetic modulo a power of
two. -/
structure PolynomialLaws : Prop where
  /-- The number shown is the value, wherever there is room for it. -/
  shown : ∀ text bits n, Shows text bits n ↔ HasRoom bits ∧ value bits.toNat text.toList = n
  /-- Each number has one numeral. -/
  numeral : ∀ n, ∃! digits, IsNumeral digits ∧ ofNumeral digits = n
  /-- The fingerprint of 64 bits is no special case. -/
  standard : ∀ text, ofWidth text 64 = .ok (fingerprint text)
  /-- The value is taken in steps of a shift, a subtraction and a mask. -/
  masked : ∀ bits text, value bits text =
    text.foldl (fun h c => ((h <<< 5) - h + c.toNat) &&& ((1 <<< bits) - 1)) 0
  /-- All steps together are one sum. -/
  polynomial : ∀ bits text,
    value bits text = Nat.ofDigits 31 (text.reverse.map Char.toNat) % 2 ^ bits
  append : ∀ bits first second, value bits (first ++ second) =
    (value bits first * 31 ^ second.length + value bits second) % 2 ^ bits
  single : ∀ bits c, value bits [c] = c.toNat % 2 ^ bits
  narrow : ∀ bits wider text, bits ≤ wider → value bits text = value wider text % 2 ^ bits
  /-- Equal fingerprints mean equal numbers. -/
  told : ∀ text other bits, ofWidth text bits = ofWidth other bits ↔
    (HasRoom bits → value bits.toNat text.toList = value bits.toNat other.toList)
  /-- A block may stand for another one of its length and fingerprint. -/
  replaced : ∀ block other bits, block.length = other.length →
    ofWidth block bits = ofWidth other bits → ∀ front back,
      ofWidth (front ++ block ++ back) bits = ofWidth (front ++ other ++ back) bits
  /-- So sources that differ in such blocks are remembered under one key. -/
  keys : ∀ block other, block.length = other.length → fingerprint block = fingerprint other →
    ∀ front back location, Engine.sourceKey (front ++ block ++ back) location =
      Engine.sourceKey (front ++ other ++ back) location

/-- The laws hold: fingerprints are numerals of the polynomial at 31, at every width for which there
is room, with all that follows for texts in parts. -/
theorem polynomialLaws : PolynomialLaws where
  shown _ _ _ := shows_iff
  numeral n := ⟨(hex n).toList, isNumeral_iff.2 rfl, fun _ h => (isNumeral_iff.1 h).symm⟩
  standard := ofWidth_standard
  masked := value_eq_masked
  polynomial := value_eq_sum
  append := value_append
  single bits c := by rw [value_eq_sum, sum_singleton]
  narrow _ _ text le := value_of_le le text
  told _ _ _ := ofWidth_eq_iff
  replaced _ _ _ long same := ofWidth_replace long same
  keys block other long same front back location := by
    have parts : ∀ inner, front ++ inner ++ back ++ "\x00" ++ location.getD "" =
        front ++ inner ++ (back ++ "\x00" ++ location.getD "") := by
      simp only [String.append_assoc, implies_true]
    rw [Engine.sourceKey, Engine.sourceKey, parts, parts]
    exact fingerprint_replace long same front _

/-- The blocks `Aa` and `BB` are of one length and have one fingerprint. -/
example : fingerprint "class Aa" = fingerprint "class BB" ∧
    ofWidth "class Aa { }" 16 = ofWidth "class BB { }" 16 ∧
    ofWidth "class Aa" 0 = .ok "0" := by
  decide +kernel

end InterfaceGen.Fingerprint
