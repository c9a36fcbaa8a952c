import DefToC.Journal
import DefToC.Typed.SymbolTable

/-!
# Steps on a symbol table

A step that reads and changes a symbol table and makes notes. What a step has done to the table
stays done when it fails.

## The model

`Lowering` takes a table and gives a result, a table and notes. It differs from a state with
exceptions in what is left behind a failure: the table is part of the result in both cases. So it
can be asked what a failed statement has changed, and later statements can be typed all the same
(`Stmt.lowerEach`).

One step after another is `Lowering.bind`. Behind a failure the later steps do nothing, neither to
the table nor to the notes. Most steps only read the table (`Lowering.reading`) or only change it
(`Lowering.updating`), and few do both.

## What is not modelled

A step cannot look at the notes, and it cannot catch a failure. There is no other state: how deep a
block is and what the function gives back is not known to a step.
-/

namespace DefToC

/-- What a step leaves behind. -/
structure Lowered (α : Type) where
  /-- The value, or what is wrong. -/
  result : Except Error α
  /-- The table after the step. -/
  table : SymbolTable
  /-- The notes in order. -/
  events : List Event

/-- A step on a symbol table. -/
def Lowering (α : Type) := SymbolTable → Lowered α

namespace Lowering

/-- Go on from the value of a step. -/
def bind {α β : Type} (step : Lowering α) (f : α → Lowering β) : Lowering β := fun table =>
  match step table with
  | ⟨.error e, table₁, events⟩ => ⟨.error e, table₁, events⟩
  | ⟨.ok a, table₁, events⟩ =>
    let next := f a table₁
    ⟨next.result, next.table, events ++ next.events⟩

instance : Monad Lowering where
  pure a := fun table => ⟨.ok a, table, []⟩
  bind := bind

/-- A step that fails. -/
def fail {α : Type} (e : Error) : Lowering α := fun table => ⟨.error e, table, []⟩

/-- A step that only makes a note. -/
def note (event : Event) : Lowering Unit := fun table => ⟨.ok (), table, [event]⟩

/-- A step that only reads the table. -/
def reading {α : Type} (f : SymbolTable → Except Error α) : Lowering α := fun table =>
  ⟨f table, table, []⟩

/-- A step that only changes the table, unless it fails. -/
def updating (f : SymbolTable → Except Error SymbolTable) : Lowering Unit := fun table =>
  match f table with
  | .error e => ⟨.error e, table, []⟩
  | .ok table₁ => ⟨.ok (), table₁, []⟩

/-- Enter a parameter. -/
def declareParameter (name : String) (type : ValueType) : Lowering Unit := do
  note (.parameter name type)
  updating fun table => .ok (table.declareParameter name type)

/-- Enter a function that may be called. -/
def declareFunction (name : String) (returns : ReturnType) : Lowering Unit := do
  note (.callee name returns)
  updating fun table => .ok (table.declareFunction name returns)

/-- An assigned occurrence of a variable. -/
def target (name : String) : Lowering Variable := fun table =>
  let (v, table₁) := table.target name
  ⟨.ok v, table₁, []⟩

/-- Give a pending variable its type and its size. -/
def bindVariable (name : String) (type : ValueType) (size : Option Nat) (position : Position) :
    Lowering Unit := do
  updating fun table => table.bind name type size position
  note (.bound name type)

end Lowering

end DefToC
