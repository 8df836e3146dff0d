/-
SmallWeb/Dictionary.lean

Text keys with values, in the order in which the keys were first written.

Writing a key again keeps its place and replaces its value.  The order matters
where entries are applied one after the other and two different keys mean the
same thing.
-/
namespace SmallWeb

variable {α : Type}

/-- A dictionary as the list of its entries. -/
structure Dictionary (α : Type) where
  entries : List (List Char × α) := []
  deriving DecidableEq, Repr

namespace Dictionary

/-- The entries after writing one key: replaced in place, or added at the
end. -/
def writeEntry (key : List Char) (value : α) :
    List (List Char × α) → List (List Char × α)
  | [] => [(key, value)]
  | (k, v) :: es => if k = key then (k, value) :: es else (k, v) :: writeEntry key value es

/-- Writes a value under a key. -/
def write (d : Dictionary α) (key : List Char) (value : α) : Dictionary α :=
  ⟨writeEntry key value d.entries⟩

/-- Writes entries one after the other. -/
def writeAll (d : Dictionary α) (entries : List (List Char × α)) : Dictionary α :=
  entries.foldl (fun d e => d.write e.1 e.2) d

/-- The dictionary that writing the entries gives. -/
def ofList (entries : List (List Char × α)) : Dictionary α := writeAll {} entries

/-- The value under a key. -/
def get? (d : Dictionary α) (key : List Char) : Option α :=
  (d.entries.find? fun e => e.1 == key).map Prod.snd

/-- The entries whose keys satisfy `p`. -/
def filterKeys (p : List Char → Bool) (d : Dictionary α) : Dictionary α :=
  ⟨d.entries.filter fun e => p e.1⟩

end Dictionary

end SmallWeb
