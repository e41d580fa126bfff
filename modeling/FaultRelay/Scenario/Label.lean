import FaultRelay.Scenario.Application

/-! The written names of payload types, thrown types and arguments. A name in angle brackets is read
from the outside in, so reading ends with the text. -/
namespace FaultRelay.Scenario

def Kind.ofLabel? (label : String) : Option Kind := Kind.all.find? (·.label == label)

def Topic.ofLabel? (label : String) : Option Topic := Topic.all.find? (·.label == label)

def thrownTypeOfLabel? : String → Option (ThrownType application)
  | "str" => some .phrase
  | "String" => some .message
  | "i32" => some (.foreign .number)
  | "DiskFull" => some (.foreign .diskFull)
  | "Unwound" => some .unwound
  | "ErrorId" => some .identity
  | _ => none

def Mode.ofLabel? (label : String) : Option Mode := Mode.all.find? (·.label == label)

/-- A watching argument by its parts: its number, then `takes` if it takes, then its mode. -/
def Watch.ofParts? : List String → Option Watch
  | [number] => return ⟨← number.toNat?, false, .honest⟩
  | [number, "moves"] => return ⟨← number.toNat?, true, .honest⟩
  | [number, "moves", mode] => return ⟨← number.toNat?, true, ← Mode.ofLabel? mode⟩
  | [number, mode] => return ⟨← number.toNat?, false, ← Mode.ofLabel? mode⟩
  | _ => none

def enclosed? (opening : List Char) (text : List Char) : Option (List Char) :=
  if opening.isPrefixOf text then
    match (text.drop opening.length).reverse with
    | '>' :: inner => some inner.reverse
    | _ => none
  else none

theorem length_of_enclosed? {opening text inner : List Char}
    (found : enclosed? opening text = some inner) : inner.length < text.length := by
  simp only [enclosed?] at found
  split at found
  · split at found
    · rename_i rest shape
      cases found
      have whole : (text.drop opening.length).length = rest.length + 1 := by
        rw [← List.length_reverse, shape, List.length_cons]
      rw [List.length_drop] at whole
      rw [List.length_reverse]
      omega
    · cases found
  · cases found

def simpleArgument? (text : List Char) : Option (Argument application) :=
  if text = "PanicMessage".toList then some .message
  else if text = "ErrorInfo".toList then some .summary
  else if text = "DiagnosticInfo".toList then some .report
  else match enclosed? "Payload<".toList text with
  | some inner => (Topic.ofLabel? (String.ofList inner)).map .take
  | none => match enclosed? "Peek<".toList text with
  | some inner => (Topic.ofLabel? (String.ofList inner)).map .copy
  | none => match enclosed? "Caught<".toList text with
  | some inner => (thrownTypeOfLabel? (String.ofList inner)).map .thrown
  | none => match enclosed? "Spy<".toList text with
  | some inner => (Watch.ofParts? ((String.ofList inner).splitOn ":")).map .custom
  | none => none

def argumentOfChars? (text : List Char) : Option (Argument application) :=
  match found : enclosed? "Option<".toList text with
  | some inner =>
      have : inner.length < text.length := length_of_enclosed? found
      (argumentOfChars? inner).map .optional
  | none => simpleArgument? text
termination_by text.length

def argumentOfLabel? (label : String) : Option (Argument application) :=
  argumentOfChars? label.toList

end FaultRelay.Scenario
