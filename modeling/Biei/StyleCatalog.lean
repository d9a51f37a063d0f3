import Biei.Lib.Pattern
import Biei.Text
import Biei.Types

/-!
# The style catalog

`style_catalog.rs`: the definitions of styles, explicit ones and those that a template gives for any style id.
-/

namespace Biei

structure StyleDefinition where
  styleUrl : String
  version : UInt64
deriving DecidableEq, Repr

def initialStyleVersion : UInt64 := 1

/-- `StyleCatalog`, without the lock around it. -/
structure StyleCatalog where
  byId : StyleId → Option StyleDefinition := fun _ => none
  namespaceTemplates : String → Option String := fun _ => none
  defaultTemplate : Option String := none

namespace StyleCatalog

/-- The template for a style id, and what it is given for `{style_id}`. -/
def templateFor (catalog : StyleCatalog) (id : StyleId) : Option (String × String) :=
  let ofNamespace := (splitOnce '/' id.id.toList).bind fun (ns, rest) =>
    (catalog.namespaceTemplates (String.ofList ns)).map fun template => (template, String.ofList rest)
  match ofNamespace with
  | some found => some found
  | none => catalog.defaultTemplate.map fun template => (template, id.id)

def upsertDefinition (catalog : StyleCatalog) (styleId : StyleId) (definition : StyleDefinition) : StyleCatalog :=
  { catalog with byId := Function.update catalog.byId styleId (some definition) }

def setUrlTemplate (catalog : StyleCatalog) (template : String) : StyleCatalog :=
    { catalog with defaultTemplate := some template }

def addNamespaceTemplate (catalog : StyleCatalog) (ns template : String) : StyleCatalog :=
  { catalog with namespaceTemplates := Function.update catalog.namespaceTemplates ns (some template) }

def resolveLatest (catalog : StyleCatalog) (styleId : StyleId) : Option UInt64 :=
  match (catalog.byId styleId).map (·.version) with
  | some version => some version
  | none => (catalog.templateFor styleId).map fun _ => initialStyleVersion

def acceptsRevision (catalog : StyleCatalog) (revision : StyleRevision) : Bool :=
  (catalog.resolveLatest revision.id).any fun version => version == revision.version

/-- `replace("{style_id}", subst)`. -/
def fillTemplate (template subst : String) : String :=
  String.ofList (Pattern.replace "\x7bstyle_id\x7d".toList subst.toList template.toList)

def definitionForRevision (catalog : StyleCatalog) (revision : StyleRevision) : Option StyleDefinition :=
  match (catalog.byId revision.id).filter fun definition => definition.version == revision.version with
  | some definition => some definition
  | none =>
    if revision.version = initialStyleVersion then
      (catalog.templateFor revision.id).map fun (template, subst) => ⟨fillTemplate template subst, initialStyleVersion⟩
    else none

/-! ## Changes -/

/-- What can be done to a catalog. -/
inductive Change where
  | upsertDefinition (styleId : StyleId) (definition : StyleDefinition)
  | setUrlTemplate (template : String)
  | addNamespaceTemplate (ns template : String)

def apply (catalog : StyleCatalog) : Change → StyleCatalog
  | .upsertDefinition styleId definition => catalog.upsertDefinition styleId definition
  | .setUrlTemplate template => catalog.setUrlTemplate template
  | .addNamespaceTemplate ns template => catalog.addNamespaceTemplate ns template

/-- The catalog after some changes of the empty one. -/
def after (changes : List Change) : StyleCatalog := changes.foldl apply {}

end StyleCatalog

end Biei
