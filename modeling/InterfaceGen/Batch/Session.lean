import InterfaceGen.Engine
import InterfaceGen.Files.Source

/-!
# Sessions

What a run reads and leaves behind: a file tree and the memory of an engine.
-/

namespace InterfaceGen

/-- A file tree and the memory of an engine. -/
structure Session where
  tree : FileTree
  caches : Caches

namespace Session

/-- The names of sources end so. -/
def sourceEnding : String := ".java"

/-- The names of outputs end so. -/
def targetEnding : String := ".ts"

/-- All sources. -/
def sources : Glob := .ending sourceEnding

/-- All outputs. -/
def targets : Glob := .ending targetEnding

/-- Lets an engine work with its memory. -/
def withCaches {α : Type} (work : StateM Caches α) : StateM Session α := fun s =>
  let (answer, caches) := work s.caches
  (answer, { s with caches })

/-- Lets work on the files change them. -/
def withTree {α : Type} (work : StateM FileTree α) : StateM Session α := fun s =>
  let (answer, tree) := work s.tree
  (answer, { s with tree })

/-- The files as they are now. -/
def currentTree : StateM Session FileTree := fun s => (s.tree, s)

end Session

end InterfaceGen
