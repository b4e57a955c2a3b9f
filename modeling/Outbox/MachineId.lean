/-!
Machine ids: the tokens that a delivering machine writes into the records it has claimed.
-/

namespace Outbox

structure MachineId where
  text : String
deriving DecidableEq, Inhabited

namespace MachineId

/-- The host part where no host name is known. -/
def defaultHost : String := "ferry"

/-- The host name, a hyphen and a fresh token in lower case. -/
def generated (hostname : Option String) (token : String) : MachineId :=
  let host := match hostname with
    | some h => if h = "" then defaultHost else h
    | none => defaultHost
  ⟨host ++ "-" ++ String.ofList (token.toList.map Char.toLower)⟩

end MachineId

end Outbox
