/-
# JSON data

The data that the library hands to a host: values, errors, spans and configurations are exported
to this type.  Numbers are whole.
-/
namespace TreeWalk

/-- A JSON value with whole numbers.  The fields of an object keep their order. -/
inductive Json where
  | null
  | bool (b : Bool)
  | number (n : Int)
  | string (s : String)
  | array (items : List Json)
  | object (fields : List (String × Json))

instance : Inhabited Json := ⟨.null⟩

end TreeWalk
