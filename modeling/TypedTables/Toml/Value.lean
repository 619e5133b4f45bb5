import TypedTables.Index

/-!
TOML documents as values. Of numbers, dates and times only the kind is kept.
-/

namespace TypedTables.Toml

inductive Value
  | string (text : String)
  | boolean (value : Bool)
  | number
  /-- A date, a time or both. -/
  | moment
  | array (items : List Value)
  | table (fields : List (String × Value))

/-- What a key of a document stands for while the document is read. -/
inductive Item
  | value (value : Value)
  /-- An implicit table exists only because longer keys go through it, a dotted one because the
  key of a value does. -/
  | table (isImplicit isDotted : Bool) (items : Index Item)
  /-- An array of tables, last one first. -/
  | tables (tables : List (Index Item))

abbrev Items := Index Item

/-- Changes the table that a path of keys leads to; tables on the way are made where there are
none. `change` also learns whether the table is a dotted one. Fails if a key on the way stands for
a value, or, on the way of a dotted key, for a table that has a header of its own. -/
def changeAt (dotted : Bool) (change : Bool → Items → Option Items) (isDotted : Bool) :
    List String → Items → Option Items
  | [], items => change isDotted items
  | key :: path, items =>
    match items.get? key with
    | none => do
      let inner ← changeAt dotted change dotted path .empty
      some (items.insert key (.table true dotted inner))
    | some (.value _) => none
    | some (.tables (last :: before)) => do
      let inner ← changeAt dotted change false path last
      some (items.insert key (.tables (inner :: before)))
    | some (.tables []) => none
    | some (.table isImplicit d inner) =>
      if dotted && !isImplicit then none
      else do
        let inner ← changeAt dotted change d path inner
        some (items.insert key (.table isImplicit d inner))

/-- Adds a value under a key, whose parts but the last go through dotted tables. -/
def addValue (path : List String) (key : String) (value : Value) (items : Items) : Option Items :=
  changeAt true (fun isDotted inner =>
    if isDotted == path.isEmpty then none
    else match inner.get? key with
      | none => some (inner.insert key (.value value))
      | some _ => none) false path items

/-- Opens the table of a header. Only a table that is implicit so far can be there already. -/
def openTable (path : List String) (key : String) (items : Items) : Option Items :=
  changeAt false (fun _ inner =>
    match inner.get? key with
    | none => some (inner.insert key (.table false false .empty))
    | some (.table true false kept) => some (inner.insert key (.table false false kept))
    | some _ => none) false path items

/-- Opens one more table of an array of tables. -/
def openElement (path : List String) (key : String) (items : Items) : Option Items :=
  changeAt false (fun _ inner =>
    match inner.get? key with
    | none => some (inner.insert key (.tables [.empty]))
    | some (.tables tables) => some (inner.insert key (.tables (.empty :: tables)))
    | some _ => none) false path items

mutual

def Item.toValue : Item → Value
  | .value value => value
  | .table _ _ items => .table (fieldsBefore [] items)
  | .tables tables => .array (tablesBefore [] tables)

/-- The fields of a table with `rest` behind them. -/
def fieldsBefore (rest : List (String × Value)) : Index Item → List (String × Value)
  | .empty => rest
  | .node before _ key item behind =>
    fieldsBefore ((key, item.toValue) :: fieldsBefore rest behind) before

/-- The tables before `done`, which are given last one first. -/
def tablesBefore (done : List Value) : List (Index Item) → List Value
  | [] => done
  | items :: rest => tablesBefore (.table (fieldsBefore [] items) :: done) rest

end

def fieldsOf (items : Items) : List (String × Value) := fieldsBefore [] items

end TypedTables.Toml
