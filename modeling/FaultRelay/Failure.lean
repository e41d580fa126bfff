/-! Identities of failures. An identity is the natural number `4 n + 1`; zero and every number with
other low bits stay free, so that a small foreign code is not taken for an identity. The supply of
numbers is unbounded here. A counter of 32 bits gives the same numbers until it wraps around, after
2 ^ 30 of them; what rests on identities being new is stated of fewer. -/
namespace FaultRelay

structure FailureId where
  raw : Nat
  tagged : raw % 4 = 1
deriving DecidableEq

namespace FailureId

def numbered (n : Nat) : FailureId := ⟨4 * n + 1, by omega⟩

def number (id : FailureId) : Nat := id.raw / 4

/-- What a counter of 32 bits that went `n` steps of four gives, with the low bit set. -/
def counted (n : Nat) : UInt32 := .ofNat (4 * n) ||| 1

theorem number_numbered (n : Nat) : (numbered n).number = n := by
  simp only [number, numbered]; omega

theorem numbered_number (id : FailureId) : numbered id.number = id := by
  obtain ⟨raw, tagged⟩ := id
  simp only [numbered, number, mk.injEq]; omega

/-- Until the counter wraps around, an identity is the number that it gave. -/
theorem raw_eq_counted (id : FailureId) (room : 4 * id.number < UInt32.size) :
    id.raw = (counted id.number).toNat := by
  have apart : 2 ^ 2 * id.number + 1 = 2 ^ 2 * id.number ||| 1 :=
    Nat.two_pow_add_eq_or_of_lt (by decide) _
  have small : 4 * id.number % 2 ^ 32 = 4 * id.number := Nat.mod_eq_of_lt room
  have split : id.raw = 2 ^ 2 * id.number + 1 := congrArg raw (numbered_number id).symm
  simp only [counted, UInt32.toNat_or, UInt32.toNat_ofNat', small]
  exact split.trans apart

def ofRaw? (raw : Nat) : Option FailureId :=
  if tagged : raw % 4 = 1 then some ⟨raw, tagged⟩ else none

@[simp] theorem ofRaw?_raw (id : FailureId) : ofRaw? id.raw = some id := by
  simp [ofRaw?, id.tagged]

theorem ofRaw?_eq_some {raw : Nat} {id : FailureId} : ofRaw? raw = some id ↔ id.raw = raw := by
  constructor
  · intro accepted
    simp only [ofRaw?] at accepted
    split at accepted
    · cases accepted; rfl
    · cases accepted
  · rintro rfl
    exact ofRaw?_raw id

theorem raw_injective {a b : FailureId} (same : a.raw = b.raw) : a = b := by
  cases a; cases b; cases same; rfl

instance : LE FailureId := ⟨fun a b => a.raw ≤ b.raw⟩

instance (a b : FailureId) : Decidable (a ≤ b) := inferInstanceAs (Decidable (a.raw ≤ b.raw))

def text (id : FailureId) : String := s!"failure #{id.number}"

def form (id : FailureId) : String := s!"ErrorId({id.number})"

def ascending (raws : List Nat) : List FailureId :=
  ((raws.filterMap ofRaw?).mergeSort (fun a b => decide (a ≤ b))).eraseReps

end FailureId

end FaultRelay
