/-!
# Dictionaries

A dictionary is a list of entries in the order of their keys, each key once.
`insert` and `erase` keep it so; as nothing else is written down, dictionaries
with the same entries are the same list.
-/

namespace Portugol

/-- The entries of a dictionary, in the order of their keys. -/
abbrev Dict (κ α : Type) := List (κ × α)

namespace Dict

variable {κ α : Type} [Ord κ]

/-- The value under a key. -/
def get? (d : Dict κ α) (key : κ) : Option α :=
  match d with
  | [] => none
  | (k, value) :: rest =>
    match compare key k with
    | .lt => none
    | .eq => some value
    | .gt => get? rest key

/-- The dictionary with this value under the key, whatever was there before. -/
def insert (d : Dict κ α) (key : κ) (value : α) : Dict κ α :=
  match d with
  | [] => [(key, value)]
  | (k, old) :: rest =>
    match compare key k with
    | .lt => (key, value) :: (k, old) :: rest
    | .eq => (key, value) :: rest
    | .gt => (k, old) :: insert rest key value

/-- The dictionary without the key. -/
def erase (d : Dict κ α) (key : κ) : Dict κ α :=
  match d with
  | [] => []
  | (k, value) :: rest =>
    match compare key k with
    | .lt => (k, value) :: rest
    | .eq => rest
    | .gt => (k, value) :: erase rest key

def contains (d : Dict κ α) (key : κ) : Bool := (get? d key).isSome

/-- The keys in order. -/
def keys (d : Dict κ α) : List κ := d.map Prod.fst

/-- The dictionary of these entries, later ones replacing earlier ones. -/
def ofList (entries : List (κ × α)) : Dict κ α :=
  entries.foldl (fun d entry => insert d entry.1 entry.2) []

end Dict

end Portugol
