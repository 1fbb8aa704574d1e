namespace DenoisePlanner

-- The text of a value with named fields.
def recordText (name : String) (fields : List (String × String)) : String :=
  let items := ", ".intercalate (fields.map fun (field, value) => field ++ ": " ++ value)
  name ++ " \x7b " ++ items ++ " \x7d"

end DenoisePlanner
