import FaultRelay.Payload
import FaultRelay.Text.Form

/-! Ordered sets of payload types that a scope opens. A type keeps the place of its first
declaration, and its tally flag is the disjunction of the flags it was declared with. -/
namespace FaultRelay

structure Declaration (V : Vocabulary) where
  key : Key V
  /-- Whether a scope that opens the key wants stray payloads counted. -/
  tallies : Bool
deriving DecidableEq

namespace Declaration

variable {V : Vocabulary}

def of (key : Key V) : Declaration V := ⟨key, false⟩

/-- The key that also switches the tally on. -/
def counting : Declaration V := ⟨.tally, true⟩

def name (declaration : Declaration V) : String := declaration.key.name

def form (declaration : Declaration V) : String := "SlotKey<" ++ declaration.name ++ ">"

/-- One more declaration, put where its key has its place already, else at the end. -/
def insertInto (declaration : Declaration V) : List (Declaration V) → List (Declaration V)
  | [] => [declaration]
  | first :: rest =>
      if first.key = declaration.key then
        { first with tallies := first.tallies || declaration.tallies } :: rest
      else first :: insertInto declaration rest

theorem keys_insertInto (declaration : Declaration V) (declarations : List (Declaration V)) :
    (insertInto declaration declarations).map key =
      if declaration.key ∈ declarations.map key then declarations.map key
      else declarations.map key ++ [declaration.key] := by
  induction declarations with
  | nil => simp [insertInto]
  | cons first rest ih =>
      by_cases same : first.key = declaration.key
      · simp [insertInto, same]
      · by_cases later : declaration.key ∈ rest.map key
        · simp [insertInto, same, later, ih]
        · simp [insertInto, same, later, ih, Ne.symm same]

theorem nodup_insertInto {declarations : List (Declaration V)} (declaration : Declaration V)
    (once : (declarations.map key).Nodup) :
    ((insertInto declaration declarations).map key).Nodup := by
  rw [keys_insertInto]
  split
  · exact once
  · rename_i absent
    refine List.nodup_append.2 ⟨once, by simp, ?_⟩
    rintro key listed last only rfl
    exact absent (List.mem_singleton.1 only ▸ listed)

end Declaration

structure Interest (V : Vocabulary) where
  declarations : List (Declaration V)
  once : (declarations.map Declaration.key).Nodup

namespace Interest

variable {V : Vocabulary}

def empty : Interest V := ⟨[], .nil⟩

instance : EmptyCollection (Interest V) := ⟨empty⟩

def insert (interest : Interest V) (declaration : Declaration V) : Interest V :=
  ⟨declaration.insertInto interest.declarations, declaration.nodup_insertInto interest.once⟩

def insertKey (interest : Interest V) (key : Key V) : Interest V := interest.insert (.of key)

def extend (interest : Interest V) (declarations : List (Declaration V)) : Interest V :=
  declarations.foldl insert interest

def ofList (declarations : List (Declaration V)) : Interest V :=
  empty.extend declarations

def ofKeys (keys : List (Key V)) : Interest V := ofList (keys.map .of)

def merge (interest other : Interest V) : Interest V := interest.extend other.declarations

def keys (interest : Interest V) : List (Key V) := interest.declarations.map Declaration.key

def contains (interest : Interest V) (key : Key V) : Bool := interest.keys.contains key

def size (interest : Interest V) : Nat := interest.declarations.length

def isEmpty (interest : Interest V) : Bool := interest.declarations.isEmpty

def tallies (interest : Interest V) : Bool := interest.declarations.any Declaration.tallies

def names (interest : Interest V) : List String := interest.declarations.map Declaration.name

def form (interest : Interest V) : String :=
  Text.listed (interest.declarations.map Declaration.form)

theorem keys_insert (interest : Interest V) (declaration : Declaration V) :
    (interest.insert declaration).keys =
      if declaration.key ∈ interest.keys then interest.keys
      else interest.keys ++ [declaration.key] :=
  declaration.keys_insertInto interest.declarations

theorem ext_declarations {first second : Interest V}
    (same : first.declarations = second.declarations) : first = second := by
  cases first; cases second; cases same; rfl

end Interest

end FaultRelay
