/-!
# Refused type names

The names of types are read in three vocabularies. A name that a vocabulary does not have is
refused with the name as it was looked up, which may differ from the name as it was given.
-/

namespace UdfBridge

/-- Why a type name was refused; each cause holds the name as it was looked up. -/
inductive TypeNameError where
  | unknownDataType (name : String)
  | unknownSqlType (name : String)
  | unknownHostType (name : String)
deriving DecidableEq, Repr

/-- The text of the error. -/
def TypeNameError.message : TypeNameError → String
  | unknownDataType name => "Unknown data type: " ++ name ++ "."
  | unknownSqlType name => "Unable to parse SqlType from type name: " ++ name ++ "."
  | unknownHostType name => "Not a supported Python primitive type: " ++ name ++ "."

end UdfBridge
