import Outbox.Message

/-!
Demonstration messages.
-/

namespace Outbox

/-- The `i`-th demonstration message, an order over a hundred times `i`. -/
def demoMessage (i : Nat) : Message :=
  let order := "order-" ++ toString i
  let body := "\x7b\"order_id\":\"" ++ order ++ "\",\"total\":" ++ toString (i * 100) ++ "\x7d"
  { topic := "orders", key := order, body := body.toUTF8.data.toList
    headers := Headers.empty.insert "content-type" "application/json" }

def demoMessages (n : Nat) : List Message := (List.range n).map fun i => demoMessage (i + 1)

end Outbox
