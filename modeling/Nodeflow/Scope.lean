import Nodeflow.Value

/-!
# Local names

The named values one run of an event sees.  A scope is made fresh for every event and
travels with the run, also over the ticks it spends waiting.
-/

namespace Nodeflow

abbrev LocalScope := NameMap Value

def eventName : String := "event"

/-- The scope an event starts with: its arguments, and its own name, which hides an
argument called the same. -/
def LocalScope.forEvent (event : String) (args : EventArgs) : LocalScope :=
  args.insert eventName (.text event)

end Nodeflow
