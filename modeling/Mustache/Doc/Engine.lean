import Mustache.Doc.Config
import Mustache.Doc.Template
import Mustache.Engine

/-! Engines as documents: the stored templates by key, and the settings. -/
namespace Mustache

namespace Catalog

def toDoc (c : Catalog) : Doc := .map (c.map fun (key, t) => (key, t.toDoc))

/-- Restores templates in the order of the document, up to the first failure. -/
def ofEntries : List (String × Doc) → Except RestoreError (List (String × Template))
  | [] => .ok []
  | (key, doc) :: rest => do
    let t ← Template.ofDoc doc
    let others ← ofEntries rest
    return (key, t) :: others

/-- Keys are kept as they are, and so are the names of the templates. -/
def ofDoc : Doc → Except RestoreError Catalog
  | .map entries => (ofEntries entries).map Entries.ofList
  | _ => .error .malformed

end Catalog

namespace Engine

def toDoc (e : Engine) : Doc :=
  .map [("templates", Catalog.toDoc e.templates), ("config", e.config.toDoc)]

/-- Reads the settings. -/
def restoreConfig (doc : Doc) : Except RestoreError Config :=
  match Config.ofDoc? doc with
  | some config => .ok config
  | none => .error .malformed

/-- Both members are required. Of two failures the first one met counts: a map is read in the order
of its keys, settings before templates, and a list in the order of its items. -/
def ofDoc : Doc → Except RestoreError Engine
  | .map entries => do
    let config ← (Entries.get? "config" entries).mapM restoreConfig
    let templates ← (Entries.get? "templates" entries).mapM Catalog.ofDoc
    match templates, config with
    | some templates, some config => return ⟨templates, config⟩
    | _, _ => .error .malformed
  | .list (templates :: rest) => do
    let templates ← Catalog.ofDoc templates
    match rest with
    | [config] => return ⟨templates, ← restoreConfig config⟩
    | _ => .error .malformed
  | _ => .error .malformed

end Engine

end Mustache
