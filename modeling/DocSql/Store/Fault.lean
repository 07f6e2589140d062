/-! # Failures of the document store -/
namespace DocSql

/-- Why the store does not do what it is asked. -/
inductive StoreFault where
  /-- A failure that was asked for. -/
  | injected (message : String)
  /-- A field on the way to a number is no document. -/
  | incrementThrough (name : String)
  | incrementAmount
  deriving DecidableEq

/-- The failure in words. -/
def StoreFault.message : StoreFault → String
  | .injected message => message
  | .incrementThrough name => s!"cannot apply $inc through non-object '{name}'"
  | .incrementAmount => "$inc amount must be an integer"

end DocSql
