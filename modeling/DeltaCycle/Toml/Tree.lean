import DeltaCycle.Toml.Moment
import DeltaCycle.Toml.Numeral

/-!
# TOML documents as trees

A tree of keys and items, with the rules that say which definitions may follow one
another: a key is defined once, a table is opened by at most one header, and a
table made by dotted keys or written inline is not reopened.
-/

set_option autoImplicit false

namespace DeltaCycle.Toml

/-- How a table came to be. -/
inductive Origin where
  /-- Opened by its own header; the whole document counts as such a table. -/
  | header
  /-- Named on the way to another header, and not opened yet. -/
  | implied
  /-- Named by a dotted key. -/
  | dotted
  /-- Written inline, and complete. -/
  | inline
deriving Repr, DecidableEq, Inhabited

/-- An item of a document. -/
inductive Item where
  | string (s : String)
  | integer (n : Int)
  | decimal (x : Decimal)
  | boolean (b : Bool)
  | moment (m : Moment)
  | array (elements : List Item)
  | table (origin : Origin) (entries : List (String × Item))
  /-- Tables opened one after the other by doubled headers. -/
  | tables (elements : List (List (String × Item)))
deriving Repr, Inhabited

/-- The entries of a table in order of definition. -/
abbrev Entries : Type := List (String × Item)

/-- The item under a key. -/
def lookup? (entries : Entries) (key : String) : Option Item :=
  (entries.find? (·.1 == key)).map (·.2)

/-- The entries with one item replaced, or added at the end. -/
def store (entries : Entries) (key : String) (item : Item) : Entries :=
  if entries.any (·.1 == key) then
    entries.map fun entry => if entry.1 == key then (key, item) else entry
  else
    entries ++ [(key, item)]

/-- A change of a table, given its origin; absent where the change is not allowed. -/
abbrev Change : Type := Origin → Entries → Option (Origin × Entries)

/-- Carries out a change in the table that `path` leads to, making the tables on the
way that do not exist. Through a sequence of tables the path leads into the last. A
dotted key does not lead into a table that has its own header. -/
def changeAt (dotted : Bool) (change : Change) : List String → Change
  | [], origin, entries => change origin entries
  | key :: path, origin, entries =>
      match lookup? entries key with
      | none => do
          let (inner, content) ← changeAt dotted change path (if dotted then .dotted else .implied) []
          return (origin, store entries key (.table inner content))
      | some (.table inner content) =>
          if inner = .inline ∨ (dotted ∧ inner = .header) then
            none
          else do
            let (inner, content) ← changeAt dotted change path inner content
            return (origin, store entries key (.table inner content))
      | some (.tables elements) =>
          match elements.reverse with
          | [] => none
          | last :: earlier => do
              let (_, content) ← changeAt dotted change path .header last
              return (origin, store entries key (.tables (content :: earlier).reverse))
      | some _ => none

/-- Defines a key. Behind a path the table must have been made by dotted keys, and
without one it must not. -/
def define (path : List String) (key : String) (item : Item) : Change :=
  changeAt true (fun origin entries =>
    if (origin == .dotted) == path.isEmpty then none
    else if (lookup? entries key).isSome then none
    else some (origin, entries ++ [(key, item)])) path

/-- Opens a table by its header. -/
def openTable (key : String) : Change := fun origin entries =>
  match lookup? entries key with
  | none => some (origin, entries ++ [(key, .table .header [])])
  | some (.table .implied content) => some (origin, store entries key (.table .header content))
  | some _ => none

/-- Opens the next of a sequence of tables by its doubled header. -/
def openNext (key : String) : Change := fun origin entries =>
  match lookup? entries key with
  | none => some (origin, entries ++ [(key, .tables [[]])])
  | some (.tables elements) => some (origin, store entries key (.tables (elements ++ [[]])))
  | some _ => none

/-- Builds an inline table from its definitions in order. -/
def inlineTable? (definitions : List (List String × String × Item)) : Option Item := do
  let (_, entries) ← definitions.foldlM
    (fun (state : Origin × Entries) (path, key, item) => define path key item state.1 state.2)
    (.header, [])
  return .table .inline entries

end DeltaCycle.Toml
