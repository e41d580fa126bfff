import FaultRelay.Text.Blank
import FaultRelay.Text.Form
import FaultRelay.Text.Utf8

/-! Settings of the relay, and their reading from an environment variable. -/
namespace FaultRelay

structure Settings where
  diagnostics : Bool
deriving DecidableEq

namespace Settings

def default : Settings := ⟨true⟩

def form (settings : Settings) : String :=
  Text.fields "Config" [("diagnostics", if settings.diagnostics then "true" else "false")]

def rejectionText : String := "a configuration is already installed globally"

def rejectionForm : String := "ConfigAlreadyInstalledError"

def sameWord (word : String) (text : List Char) : Bool := text.map Char.toLower == word.toList

def disables (text : List Char) : Bool :=
  sameWord "0" text || sameWord "off" text || sameWord "false" text

/-- The settings for a value of the environment variable; one that is not set changes nothing. -/
def ofVariable : Option (List UInt8) → Settings
  | none => default
  | some bytes => ⟨!disables (Text.trim (Text.decode bytes))⟩

theorem ofVariable_none : ofVariable none = default := rfl

end Settings

end FaultRelay
