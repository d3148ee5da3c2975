/-!
# Assoc — association lists in order of insertion

A new key goes last; a key that is there keeps its place and takes the new value.  What counts as
the same key is a parameter, since the keys of a document compare across types.
-/

namespace Criteria.Assoc

variable {κ ν : Type}

/-- The list with a value for a key. -/
def insertBy (same : κ → κ → Bool) (key : κ) (value : ν) : List (κ × ν) → List (κ × ν)
  | [] => [(key, value)]
  | (k, v) :: rest =>
    if same k key then (k, value) :: rest else (k, v) :: insertBy same key value rest

/-- The entries inserted one by one. -/
def ofListBy (same : κ → κ → Bool) (entries : List (κ × ν)) : List (κ × ν) :=
  entries.foldl (fun list (key, value) => insertBy same key value list) []

variable [DecidableEq κ]

/-- The list with a value for a key. -/
def insert (key : κ) (value : ν) (list : List (κ × ν)) : List (κ × ν) :=
  insertBy (fun a b => decide (a = b)) key value list

/-- The list without a key. -/
def erase (key : κ) (list : List (κ × ν)) : List (κ × ν) :=
  list.filter fun entry => decide (entry.1 ≠ key)

/-- The entries inserted one by one. -/
def ofList (entries : List (κ × ν)) : List (κ × ν) :=
  entries.foldl (fun list (key, value) => insert key value list) []

end Criteria.Assoc
