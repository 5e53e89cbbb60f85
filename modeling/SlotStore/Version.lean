/-!
# Version
-/

namespace SlotStore

/-- The version of the store. -/
def version : String := "0.1.0"

end SlotStore
