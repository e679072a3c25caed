import Datatypes.Text.Class

namespace Datatypes.Text

def strip (p : Char → Bool) (s : String) : String :=
  String.ofList ((s.toList.dropWhile p).reverse.dropWhile p).reverse

def trim (s : String) : String := strip isBlank s

end Datatypes.Text
