/-
SmallWeb/Plugins.lean

Readers and renderers by name.

A registry is a map that is written once per key.  The key of a name is the name
without blanks around it and in lower case, so any spelling finds it.  The names
are listed in the order of their code points.
-/
import SmallWeb.Fault

namespace SmallWeb

variable {α : Type}

/-- Values under keys, in the order of registration. -/
structure Plugins (α : Type) where
  entries : List (List Char × α) := []

namespace Plugins

/-- The key of a name. -/
def key (name : List Char) : List Char := Text.lower (Text.trim name)

/-- The value under a key. -/
def find? (p : Plugins α) (key : List Char) : Option α :=
  (p.entries.find? fun e => e.1 == key).map Prod.snd

/-- The registered keys in order. -/
def names (p : Plugins α) : List (List Char) :=
  (p.entries.map Prod.fst).mergeSort Text.inOrder

/-- Registers a value; a key that is taken is refused. -/
def register (p : Plugins α) (name : List Char) (value : α) : Except Fault (Plugins α) :=
  match p.find? (key name) with
  | some _ => .error (.duplicatePlugin (key name))
  | none => .ok ⟨p.entries ++ [(key name, value)]⟩

/-- The value that is registered under a name. -/
def get (p : Plugins α) (name : List Char) : Except Fault α :=
  match p.find? (key name) with
  | some value => .ok value
  | none => .error (.unknownPlugin name p.names)

/-- Whether a name is registered. -/
def contains (p : Plugins α) (name : List Char) : Bool := (p.find? (key name)).isSome

/-- Whether a value is a name that is registered. -/
def containsValue (p : Plugins α) : Value → Bool
  | .string name => p.contains name
  | _ => false

end Plugins

end SmallWeb
