/-
# GradualScript.Scope.Layout -- the debugging view of a scope

A scope shows its names and its depth, never what they are bound to: an object may be bound in a
scope that belongs to it.
-/

import GradualScript.Scope.Heap
import GradualScript.Text.Layout

namespace GradualScript

open Text (Layout)

/-- The names that `s` binds itself, in definition order. -/
def Heap.nameLayout {α : Type} (h : Heap α) (s : ScopeId) : Layout :=
  .list ((h.bindings s).names.map Layout.string)

/-- A scope as its own names and its distance from the root. -/
def Heap.layout {α : Type} (h : Heap α) (s : ScopeId) : Layout :=
  .record "Scope" [("names", h.nameLayout s), ("depth", .number (h.depth s))]

/-- An optional name in quotes. -/
def Text.Layout.optionalName (name : Option String) : Layout := .option (name.map Layout.string)

end GradualScript
