import UrlRouting.Converter.Declaration
import UrlRouting.NameMap

/-
  The converters that templates can name.
-/

namespace UrlRouting

/-- Makes a converter from its arguments. -/
abbrev Declaration := Arguments → Except ArgumentError Converter

/-- Declarations by name. -/
abbrev Catalogue := NameMap Declaration

namespace Catalogue

/-- The name of the converter that a variable without one has. -/
def defaultName : String := "default"

/-- The six kinds under their own names, and strings under the default name. -/
def standard : Catalogue :=
  .ofList [
    ("any", Converter.declareAny),
    (defaultName, Converter.declareString),
    ("float", Converter.declareFloat),
    ("int", Converter.declareInt),
    ("path", Converter.declarePath),
    ("string", Converter.declareString),
    ("uuid", Converter.declareUuid)]

end Catalogue

end UrlRouting
