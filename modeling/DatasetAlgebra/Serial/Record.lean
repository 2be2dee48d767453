import DatasetAlgebra.Json.Document

/-! Records and enumerations as JSON documents. -/
namespace DatasetAlgebra

/-- Where a document is read: by itself, or as a part of a filter, where constants may be written
in more ways. -/
inductive Place where
  | alone
  | inFilter
  deriving DecidableEq, Repr

namespace Document

/-- The fields of a record: an object that has each of them at most once, whatever else it has,
or an array that holds them by position. -/
def record? (names : List String) : Document → Option (List (Option Document))
  | .object fields =>
    if names.all fun n => fields.countP (fun field => field.1 = n) ≤ 1 then
      some (names.map fun n => fields.lookup n)
    else none
  | .array items =>
    if items.length ≤ names.length then some ((List.range names.length).map fun i => items[i]?)
    else none
  | _ => none

/-- The name that stands for a constant: the name itself, or an object that maps it to null, or
in a filter to an empty object. -/
def constant? (place : Place) : Document → Option String
  | .string s => some s
  | .object [(s, .null)] => some s
  | .object [(s, .object [])] => if place = .inFilter then some s else none
  | _ => none

/-- The one of some choices that is named, or in a filter given by its position. -/
def choice? {α : Type} (place : Place) (choices : List α) (name : α → String) :
    Document → Option α
  | .string s => choices.find? fun a => name a = s
  | .integer n => if place = .inFilter && 0 ≤ n then choices[n.toNat]? else none
  | _ => none

def boolean? : Document → Option Bool
  | .boolean b => some b
  | _ => none

def string? : Document → Option String
  | .string s => some s
  | _ => none

/-- A natural number below a bound. -/
def natural? (bound : Nat) : Document → Option Nat
  | .integer n => if 0 ≤ n && n < bound then some n.toNat else none
  | _ => none

end Document
end DatasetAlgebra
