/-!
# Blank characters

The 29 code points that separate words: the ASCII blanks and separators, the next-line and
no-break characters, and the spaces and line separators of the general punctuation block.
`trim` removes them from both ends of a text, `collapse` turns each run of them into one space.
-/

namespace InterfaceGen.Text

/-- Is `c` one of the blank characters? -/
def isBlank (c : Char) : Bool :=
  let n := c.toNat
  (0x09 ≤ n && n ≤ 0x0D) || (0x1C ≤ n && n ≤ 0x20) || n == 0x85 || n == 0xA0 || n == 0x1680 ||
    (0x2000 ≤ n && n ≤ 0x200A) || n == 0x2028 || n == 0x2029 || n == 0x202F || n == 0x205F ||
    n == 0x3000

/-- The text without the blanks it begins with. -/
def trimLeft (text : List Char) : List Char :=
  text.dropWhile isBlank

/-- The text without the blanks it ends with. -/
def trimRight (text : List Char) : List Char :=
  (text.reverse.dropWhile isBlank).reverse

/-- The text without the blanks at its two ends. -/
def trim (text : List Char) : List Char :=
  trimRight (trimLeft text)

/-- Each run of blanks as one space; `inRun` says that the character before was a blank. -/
def collapseFrom (inRun : Bool) : List Char → List Char
  | [] => []
  | c :: rest =>
    if isBlank c then
      if inRun then collapseFrom true rest else ' ' :: collapseFrom true rest
    else c :: collapseFrom false rest

/-- The text with each run of blanks replaced by one space. -/
def collapse (text : List Char) : List Char :=
  collapseFrom false text

theorem length_trimLeft_le (text : List Char) : (trimLeft text).length ≤ text.length :=
  (List.dropWhile_sublist isBlank).length_le

theorem length_trimRight_le (text : List Char) : (trimRight text).length ≤ text.length := by
  have h := (List.dropWhile_sublist isBlank (l := text.reverse)).length_le
  simpa [trimRight] using h

theorem length_trim_le (text : List Char) : (trim text).length ≤ text.length :=
  Nat.le_trans (length_trimRight_le _) (length_trimLeft_le _)

end InterfaceGen.Text
