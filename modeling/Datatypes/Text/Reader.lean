/-! Readers take what they read off the front of a text and give back the rest. -/

namespace Datatypes.Text

abbrev Reader (α : Type) := List Char → Option (α × List Char)

end Datatypes.Text
