/- Records as text: a name and, in braces, the fields by name with their values,
   `Point { x: 1, y: 2 }`. -/
namespace Sentential.Text

/-- The text of a record whose field values are texts already. -/
def record (name : String) (fields : List (String × String)) : String :=
  let entries := fields.map fun (field, value) => field ++ ": " ++ value
  name ++ " \x7b " ++ ", ".intercalate entries ++ " \x7d"

end Sentential.Text
