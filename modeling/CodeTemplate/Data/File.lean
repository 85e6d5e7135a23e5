import CodeTemplate.Data.Json
import CodeTemplate.Data.Yaml.OfMarks
import CodeTemplate.Text.Affix

/-! Data in files. -/

namespace CodeTemplate.Data

/-- The data that a file holds: JSON if its name says so, else YAML. -/
def ofFile? (name content : String) : Option Data :=
  if Text.endsWith name ".json" then ofJson? content else ofYaml? content

end CodeTemplate.Data
