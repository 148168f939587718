import AiProxy.Lib.Regex

/-!
# The error type of the database layer

`DbError` with the variants that the modelled functions return. The error of the driver is left out
of a failed query.
-/

namespace AiProxy.Db

inductive DbError where
  | queryFailed (context : Text)
  | notFound (entity id : Text)
  | constraintViolation (message : Text)
  | validation (message : Text)

end AiProxy.Db
