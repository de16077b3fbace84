/-!
# Why a capability fails
-/

namespace Nodeflow

inductive CapabilityError where
  | missingArgument (name : String)
  | argumentType (name expected : String)
  | noObject
  | unknownField (name : String)
  | failed (text : String)
  deriving DecidableEq

def CapabilityError.message : CapabilityError → String
  | .missingArgument name => "missing argument `" ++ name ++ "`"
  | .argumentType name expected => "argument `" ++ name ++ "` should be " ++ expected
  | .noObject => "capability needs a bound object"
  | .unknownField name => "object has no field `" ++ name ++ "`"
  | .failed text => text

end Nodeflow
