import Datatypes.Decimal.Layout
import Datatypes.Definition
import Datatypes.Json

/-! The JSON form of definitions. A definition without a message name has no field for it. -/

namespace Datatypes

namespace Constant

def display : Constant → String
  | .int n => toString n
  | .float x => Decimal.plain x
  | .text s => s

def toJson : Constant → Json
  | .int n => .ofInt n
  | .float x => .number (Decimal.json x)
  | .text s => .string s

end Constant

def Argument.toJson (a : Argument) : Json :=
  .object [("name", .string a.name), ("type", .string a.type), ("nullable", .bool a.nullable),
    ("is_list", .bool a.isList)]

def Constructor.toJson (c : Constructor) : Json :=
  .object [("name", .string c.name), ("arguments", .array (c.arguments.map (·.toJson)))]

def Deriving.toJson : Deriving → Json
  | .named name => .object [("kind", .string "named"), ("name", .string name)]
  | .enum values =>
    .object [("kind", .string "enum"),
      ("values", .object (values.map fun (case, value) => (case, value.toJson)))]

def Condition.toJson (c : Condition) : Json :=
  .object [("constructor", .string c.scope), ("expression", .string c.expression),
    ("message", .string c.message)]

def Definition.toJson (d : Definition) : Json :=
  .object ([("namespace", .string d.ns), ("name", .string d.name),
    ("constructor", d.constructor.toJson), ("deriving", d.deriv.toJson),
    ("conditions", .array (d.conditions.map (·.toJson)))] ++
      (d.messageName.map fun m => ("message_name", Json.string m)).toList)

def Collection.toJson (c : Collection) : Json :=
  .object [("file", .string c.file), ("definitions", .array (c.definitions.map (·.toJson)))]

end Datatypes
