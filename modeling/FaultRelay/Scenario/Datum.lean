/-! Plain data as scenarios write and log it. The fields of a record stand in ascending order of
their names. -/
namespace FaultRelay.Scenario

inductive Datum where
  | null
  | bool (value : Bool)
  | int (value : Int)
  | text (value : String)
  | list (items : List Datum)
  | record (fields : List (String × Datum))

namespace Datum

mutual

def same : Datum → Datum → Bool
  | null, null => true
  | bool a, bool b => a == b
  | int a, int b => a == b
  | text a, text b => a == b
  | list as, list bs => sameItems as bs
  | record as, record bs => sameFields as bs
  | _, _ => false

def sameItems : List Datum → List Datum → Bool
  | [], [] => true
  | a :: as, b :: bs => same a b && sameItems as bs
  | _, _ => false

def sameFields : List (String × Datum) → List (String × Datum) → Bool
  | [], [] => true
  | (m, a) :: as, (n, b) :: bs => m == n && same a b && sameFields as bs
  | _, _ => false

end

def nat (value : Nat) : Datum := int value

def texts (values : List String) : Datum := list (values.map text)

def nullable {α : Type} (write : α → Datum) : Option α → Datum
  | none => null
  | some value => write value

def toInt? : Datum → Option Int
  | int value => some value
  | _ => none

def word? : Datum → Option Int
  | int value =>
      if -9223372036854775808 ≤ value ∧ value ≤ 9223372036854775807 then some value else none
  | _ => none

def toText? : Datum → Option String
  | text value => some value
  | _ => none

/-- The order in which conditions compare: by the integers from -2⁶³ to 2⁶³ - 1, and what is no
such integer is below them all. -/
def precedes (a b : Datum) : Bool :=
  match a.word?, b.word? with
  | none, some _ => true
  | some m, some n => m < n
  | _, none => false

end Datum

end FaultRelay.Scenario
