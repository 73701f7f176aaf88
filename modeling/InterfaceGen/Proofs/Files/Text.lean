import InterfaceGen.Proofs.Files.Outline
import InterfaceGen.Proofs.Text.Stored

/-!
# Texts of files

A text is read where the path leads to a file whose bytes are characters: `Holds`. It depends on
nothing else. What is written into a file that is there is read again: `holds_set`.
-/

namespace InterfaceGen

open InterfaceGen.Text

namespace FileTree

variable {t u : FileTree} {path : FilePath} {place : Place} {bytes : List UInt8}
  {chars : List Char}

/-- The path leads to a file whose bytes are these characters. -/
structure Holds (t : FileTree) (path : FilePath) (place : Place) (bytes : List UInt8)
    (chars : List Char) : Prop where
  located : t.locate path = .ok place
  entry : t.entry? place = some (.file bytes)
  decoded : Utf8.decode bytes = .ok chars

/-- The text of a file is read with its line breaks unified. -/
theorem Holds.readText (h : t.Holds path place bytes chars) :
    t.readText path = .ok (String.ofList (unifyBreaks chars)) := by
  simp only [FileTree.readText, readBytes, h.located, h.entry, h.decoded]

/-- A text that is read is that of a file. -/
theorem exists_holds {text : String} (h : t.readText path = .ok text) :
    ∃ place bytes chars, t.Holds path place bytes chars ∧
      text = String.ofList (unifyBreaks chars) := by
  simp only [FileTree.readText, readBytes] at h
  split at h
  · cases h
  · next bytes read =>
    split at h
    · cases h
    · next chars decoded =>
      split at read
      · cases read
      · next place located =>
        split at read
        · next entry =>
          cases read
          cases h
          exact ⟨place, _, chars, ⟨located, entry, decoded⟩, rfl⟩
        · cases read
        · cases read

/-- Writing a file replaces its contents. -/
theorem writeText_of_holds (h : t.Holds path place bytes chars) (text : String) :
    t.writeText path text = .ok (t.set place (.file (Utf8.encode text.toList))) := by
  rw [writeText, writeBytes, h.located]
  simp only [h.entry]
  rw [if_neg (by simp)]

/-- What is read depends on where the path leads and on what is there. -/
theorem readText_congr (located : t.locate path = u.locate path)
    (entry : ∀ place, t.locate path = .ok place → t.entry? place = u.entry? place) :
    t.readText path = u.readText path := by
  rw [FileTree.readText, FileTree.readText, readBytes, readBytes, ← located]
  cases h : t.locate path with
  | error error => rfl
  | ok place => simp only [entry place h]

/-- In trees with one outline paths lead to the same places. -/
theorem locate_congr (h : t.outline = u.outline) (path : FilePath) :
    t.locate path = u.locate path := by
  rw [← locate_outline t, h, locate_outline]

/-- A text that is written is what the file holds. -/
theorem holds_set (wf : t.WellFormed) (h : t.Holds path place bytes chars) (text : List Char) :
    (t.set place (.file (Utf8.encode text))).Holds path place (Utf8.encode text) text where
  located := locate_congr (outline_set wf h.entry _) path ▸ h.located
  entry := entry?_set_self t (ne_nil_of_file h.entry) _
  decoded := Utf8.decode_encode text

end FileTree

end InterfaceGen
