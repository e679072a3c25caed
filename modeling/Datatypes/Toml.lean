/-! Values of TOML documents. Numbers, dates and times keep their written form. -/

namespace Datatypes

inductive Toml where
  | string (value : String)
  | boolean (value : Bool)
  | literal (text : String)
  | array (items : List Toml)
  | table (fields : List (String × Toml))

end Datatypes
