/-! # The error values that cross the adapter's interfaces -/

namespace RgbLightningNode

inductive APIError where
  | externalSignerMismatch
  | failedVssInit (details : String)
  | unexpected (details : String)
  deriving DecidableEq, Repr

/-- The errors of the foreign-language interface that the modelled calls return. -/
inductive RlnError where
  | externalSignerMismatch (details : String)
  | externalSignerUnavailable (details : String)
  | internal (details : String)
  | invalidRequest (details : String)
  | notInitialized (details : String)
  deriving DecidableEq, Repr

end RgbLightningNode
