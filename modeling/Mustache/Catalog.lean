import Mustache.Entries
import Mustache.Node

/-! Where partials come from: any way of finding templates by name, and the finite catalogs. -/
namespace Mustache

/-- Finds the template of a name, if there is one. -/
abbrev Loader := String → Option Template

def Loader.empty : Loader := fun _ => none

/-- Templates by name. -/
abbrev Catalog := Entries Template

namespace Catalog

def load (c : Catalog) : Loader := fun name => Entries.get? name c

end Catalog

end Mustache
