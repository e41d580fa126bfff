/-! Decoding of bytes in which each maximal ill-formed part counts as one replacement character. The
second byte of a sequence has a range of its own, which shuts out overlong forms, surrogates and
numbers past the last character. -/
namespace FaultRelay.Text

def replacement : Char := '\uFFFD'

def isContinuation (byte : UInt8) : Bool := 0x80 ≤ byte && byte ≤ 0xBF

def startsTwo (lead : UInt8) : Bool := 0xC2 ≤ lead && lead ≤ 0xDF

def startsThree (lead : UInt8) : Bool := 0xE0 ≤ lead && lead ≤ 0xEF

def startsFour (lead : UInt8) : Bool := 0xF0 ≤ lead && lead ≤ 0xF4

def followsThree (lead second : UInt8) : Bool :=
  if lead = 0xE0 then 0xA0 ≤ second && second ≤ 0xBF
  else if lead = 0xED then 0x80 ≤ second && second ≤ 0x9F
  else isContinuation second

def followsFour (lead second : UInt8) : Bool :=
  if lead = 0xF0 then 0x90 ≤ second && second ≤ 0xBF
  else if lead = 0xF4 then 0x80 ≤ second && second ≤ 0x8F
  else isContinuation second

def lowBits (byte : UInt8) : Nat := byte.toNat % 64

def joinTwo (a b : UInt8) : Char := Char.ofNat (a.toNat % 32 * 64 + lowBits b)

def joinThree (a b c : UInt8) : Char :=
  Char.ofNat (a.toNat % 16 * 4096 + lowBits b * 64 + lowBits c)

def joinFour (a b c d : UInt8) : Char :=
  Char.ofNat (a.toNat % 8 * 262144 + lowBits b * 4096 + lowBits c * 64 + lowBits d)

/-- The first character of a nonempty text, and how many bytes after its first byte it takes. -/
def decodeFirst (a : UInt8) : List UInt8 → Char × Nat
  | [] => if a < 0x80 then (Char.ofNat a.toNat, 0) else (replacement, 0)
  | b :: rest =>
      if a < 0x80 then (Char.ofNat a.toNat, 0)
      else if startsTwo a then
        if isContinuation b then (joinTwo a b, 1) else (replacement, 0)
      else if startsThree a then
        if followsThree a b then
          match rest with
          | c :: _ => if isContinuation c then (joinThree a b c, 2) else (replacement, 1)
          | [] => (replacement, 1)
        else (replacement, 0)
      else if startsFour a then
        if followsFour a b then
          match rest with
          | c :: d :: _ =>
              if isContinuation c then
                if isContinuation d then (joinFour a b c d, 3) else (replacement, 2)
              else (replacement, 1)
          | [c] => if isContinuation c then (replacement, 2) else (replacement, 1)
          | [] => (replacement, 1)
        else (replacement, 0)
      else (replacement, 0)

def decode : List UInt8 → List Char
  | [] => []
  | a :: rest => (decodeFirst a rest).1 :: decode (rest.drop (decodeFirst a rest).2)
termination_by bytes => bytes.length
decreasing_by simp only [List.length_cons, List.length_drop]; omega

theorem decode_nil : decode [] = [] := by rw [decode]

theorem decode_ascii {a : UInt8} (small : a < 0x80) (rest : List UInt8) :
    decode (a :: rest) = Char.ofNat a.toNat :: decode rest := by
  cases rest <;> simp [decode, decodeFirst, small]

end FaultRelay.Text
