/-! Owners of slot frames. Tokens are numbered from one on each thread; the detached token stands
for an owner that was made without a thread's counter and is greater than every number in use. -/
namespace FaultRelay

inductive Token where
  | numbered (n : Nat)
  | detached
deriving DecidableEq

namespace Token

def value : Token → Nat
  | numbered n => n
  | detached => 18446744073709551615

def form (token : Token) : String := s!"ScopeToken({token.value})"

end Token

end FaultRelay
