namespace Datatypes.Text

def split (sep : Char) (s : String) : List String :=
  (s.toList.splitOn sep).map String.ofList

def segments (sep : Char) (s : String) : List String :=
  (split sep s).filter (· ≠ "")

def afterLast (sep : Char) (s : String) : String :=
  String.ofList (s.toList.reverse.takeWhile (· ≠ sep)).reverse

def dropLeading (c : Char) (s : String) : String :=
  String.ofList (s.toList.dropWhile (· = c))

def dropTrailing (c : Char) (s : String) : String :=
  String.ofList (s.toList.reverse.dropWhile (· = c)).reverse

end Datatypes.Text
