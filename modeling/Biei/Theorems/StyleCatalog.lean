import Biei.StyleCatalog
import Biei.Lemmas.Text

/-! # One answer for a revision -/

namespace Biei.StyleCatalog

/-! ## What was registered -/

/-- The last definition that was given for a style id. -/
def definitionIn (styleId : StyleId) : List Change → Option StyleDefinition
  | [] => none
  | change :: earlier =>
    match change with
    | .upsertDefinition id definition => if styleId = id then some definition else definitionIn styleId earlier
    | _ => definitionIn styleId earlier

/-- The last template that was given for a namespace. -/
def namespaceTemplateIn (ns : String) : List Change → Option String
  | [] => none
  | change :: earlier =>
    match change with
    | .addNamespaceTemplate name template => if ns = name then some template else namespaceTemplateIn ns earlier
    | _ => namespaceTemplateIn ns earlier

/-- The last default template. -/
def defaultTemplateIn : List Change → Option String
  | [] => none
  | .setUrlTemplate template :: _ => some template
  | _ :: earlier => defaultTemplateIn earlier

/-- A catalog answers with what was registered last. -/
theorem after_spec (changes : List Change) : (∀ id, (after changes).byId id = definitionIn id changes.reverse) ∧
    (∀ ns, (after changes).namespaceTemplates ns = namespaceTemplateIn ns changes.reverse) ∧
    (after changes).defaultTemplate = defaultTemplateIn changes.reverse := by
  induction changes using List.reverseRecOn with
  | nil => exact ⟨fun _ => rfl, fun _ => rfl, rfl⟩
  | append_singleton changes change ih =>
    obtain ⟨hdefinition, hnamespace, hdefault⟩ := ih
    have hafter : after (changes ++ [change]) = (after changes).apply change := by
      rw [after, List.foldl_append]
      rfl
    rw [hafter, List.reverse_append, List.reverse_singleton, List.singleton_append]
    cases change with
    | upsertDefinition styleId definition =>
      refine ⟨fun id => ?_, hnamespace, hdefault⟩
      by_cases hid : id = styleId
      · simp [apply, upsertDefinition, definitionIn, hid]
      · simp [apply, upsertDefinition, definitionIn, hid, hdefinition]
    | setUrlTemplate template => exact ⟨hdefinition, hnamespace, rfl⟩
    | addNamespaceTemplate name template =>
      refine ⟨hdefinition, fun ns => ?_, hdefault⟩
      by_cases hns : ns = name
      · simp [apply, addNamespaceTemplate, namespaceTemplateIn, hns]
      · simp [apply, addNamespaceTemplate, namespaceTemplateIn, hns, hnamespace]

/-- A style id with a first segment. -/
def HasNamespace (id : StyleId) (ns rest : String) : Prop := id.id = ns ++ "/" ++ rest ∧ '/' ∉ ns.toList

/-- The template of a style id: that of its first segment with the remaining ones, if one is registered, else the default one with
the whole id. -/
def TemplateOf (changes : List Change) (id : StyleId) (template subst : String) : Prop :=
  (∃ ns, HasNamespace id ns subst ∧ namespaceTemplateIn ns changes.reverse = some template) ∨
    (∀ ns rest, HasNamespace id ns rest → namespaceTemplateIn ns changes.reverse = none) ∧
      defaultTemplateIn changes.reverse = some template ∧ subst = id.id

theorem hasNamespace_iff {id : StyleId} {ns rest : String} :
    HasNamespace id ns rest ↔ splitOnce '/' id.id.toList = some (ns.toList, rest.toList) := by
  constructor
  · rintro ⟨hid, hns⟩
    rw [hid, String.toList_append, String.toList_append, List.append_assoc]
    exact splitOnce_append hns rest.toList
  · intro h
    obtain ⟨hid, hns⟩ := splitOnce_eq_some h
    refine ⟨String.toList_inj.mp ?_, hns⟩
    rw [hid, String.toList_append, String.toList_append, List.append_assoc]
    rfl

theorem templateFor_eq_some_iff {changes : List Change} {id : StyleId} {template subst : String} :
    (after changes).templateFor id = some (template, subst) ↔ TemplateOf changes id template subst := by
  obtain ⟨-, hnamespace, hdefault⟩ := after_spec changes
  simp only [templateFor, hnamespace, hdefault]
  cases hsplit : splitOnce '/' id.id.toList with
  | none =>
    have hnone : ∀ ns rest, ¬ HasNamespace id ns rest := by
      intro ns rest h
      rw [hasNamespace_iff, hsplit] at h
      cases h
    simp [TemplateOf, hnone, eq_comm]
  | some parts =>
    obtain ⟨ns, rest⟩ := parts
    have hparts : ∀ ns' rest', HasNamespace id ns' rest' ↔ ns' = String.ofList ns ∧ rest' = String.ofList rest := by
      intro ns' rest'
      rw [hasNamespace_iff, hsplit, Option.some.injEq, Prod.mk.injEq, ← String.toList_inj, ← String.toList_inj,
        String.toList_ofList,
        String.toList_ofList, eq_comm, @eq_comm _ rest]
    cases htemplate : namespaceTemplateIn (String.ofList ns) changes.reverse with
    | none => simp [TemplateOf, hparts, htemplate, eq_comm]
    | some found => simp [TemplateOf, hparts, htemplate, eq_comm, and_comm]

/-! ## Answers -/

/-- What a catalog answers for a revision: it accepts what it has a definition for, a definition that was given is the only one
for its style id, and elsewhere the first version of the style is what the template gives. -/
structure OneAnswer (changes : List Change) (revision : StyleRevision) : Prop where
  accepted : (after changes).acceptsRevision revision = true ↔ ((after changes).definitionForRevision revision).isSome
  explicit : ∀ definition, definitionIn revision.id changes.reverse = some definition →
    ∀ found, (after changes).definitionForRevision revision = some found → found = definition
  template : definitionIn revision.id changes.reverse = none → ∀ found,
    (after changes).definitionForRevision revision = some found ↔
    revision.version = initialStyleVersion ∧ ∃ template subst, TemplateOf changes revision.id template subst ∧
      found = ⟨fillTemplate template subst, initialStyleVersion⟩

/-- A template gives the first version of a style that has a definition of another version. -/
def Resurrected (changes : List Change) (revision : StyleRevision) : Prop :=
  revision.version = initialStyleVersion ∧
    (∃ definition, definitionIn revision.id changes.reverse = some definition ∧ definition.version ≠ initialStyleVersion) ∧
    ∃ template subst, TemplateOf changes revision.id template subst

/-- What a template gives for a revision. -/
def templateDefinition (catalog : StyleCatalog) (revision : StyleRevision) : Option StyleDefinition :=
  if revision.version = initialStyleVersion then
    (catalog.templateFor revision.id).map fun (template, subst) => ⟨fillTemplate template subst, initialStyleVersion⟩
  else none

variable {revision : StyleRevision}

theorem templateDefinition_eq_some_iff {changes : List Change} {found : StyleDefinition} :
    (after changes).templateDefinition revision = some found ↔ revision.version = initialStyleVersion ∧
      ∃ template subst, TemplateOf changes revision.id template subst ∧
        found = ⟨fillTemplate template subst, initialStyleVersion⟩ := by
  unfold templateDefinition
  split
  · rename_i hversion
    rw [Option.map_eq_some_iff]
    constructor
    · rintro ⟨⟨template, subst⟩, htemplate, rfl⟩
      exact ⟨hversion, template, subst, templateFor_eq_some_iff.mp htemplate, rfl⟩
    · rintro ⟨-, template, subst, htemplate, rfl⟩
      exact ⟨(template, subst), templateFor_eq_some_iff.mpr htemplate, rfl⟩
  · rename_i hversion
    exact iff_of_false nofun fun h => hversion h.1

/-- A style without a definition of its own. -/
theorem answers_of_none {catalog : StyleCatalog} (h : catalog.byId revision.id = none) :
    catalog.definitionForRevision revision = catalog.templateDefinition revision ∧
      (catalog.acceptsRevision revision = true ↔ (catalog.templateDefinition revision).isSome) := by
  constructor
  · rw [definitionForRevision, h]
    rfl
  · rw [acceptsRevision, resolveLatest, h, templateDefinition]
    cases htemplate : catalog.templateFor revision.id with
    | none => simp
    | some found => simp [eq_comm (a := initialStyleVersion)]

/-- A style with a definition of its own. -/
theorem answers_of_some {catalog : StyleCatalog} {definition : StyleDefinition} (h : catalog.byId revision.id = some definition) :
    catalog.definitionForRevision revision =
        (if definition.version = revision.version then some definition else catalog.templateDefinition revision) ∧
      (catalog.acceptsRevision revision = true ↔ definition.version = revision.version) := by
  constructor
  · rw [definitionForRevision, h]
    by_cases hversion : definition.version = revision.version
    · rw [Option.filter_some, if_pos (beq_iff_eq.mpr hversion), if_pos hversion]
    · rw [Option.filter_some, if_neg (fun hbeq => hversion (beq_iff_eq.mp hbeq)), if_neg hversion]
      rfl
  · simp [acceptsRevision, resolveLatest, h]

/-- After any changes, a catalog has one answer for a revision unless a template resurrects it. -/
theorem oneAnswer_iff (changes : List Change) (revision : StyleRevision) : OneAnswer changes revision ↔
    ¬ Resurrected changes revision := by
  have hbyId := (after_spec changes).1 revision.id
  cases hdefinition : definitionIn revision.id changes.reverse with
  | none =>
    rw [hdefinition] at hbyId
    obtain ⟨hfound, haccepted⟩ := answers_of_none hbyId
    refine iff_of_true ⟨?_, fun definition h => ?_, fun _ found => ?_⟩ ?_
    · rw [haccepted, hfound]
    · rw [hdefinition] at h
      cases h
    · rw [hfound, templateDefinition_eq_some_iff]
    · rintro ⟨-, ⟨definition, h, -⟩, -⟩
      rw [hdefinition] at h
      cases h
  | some definition =>
    rw [hdefinition] at hbyId
    obtain ⟨hfound, haccepted⟩ := answers_of_some hbyId
    by_cases hversion : definition.version = revision.version
    · rw [if_pos hversion] at hfound
      refine iff_of_true ⟨?_, fun explicit h found hanswer => ?_, fun h => ?_⟩ ?_
      · rw [haccepted, hfound]
        exact iff_of_true hversion rfl
      · rw [hfound] at hanswer
        rw [hdefinition] at h
        exact (Option.some.inj hanswer).symm.trans (Option.some.inj h)
      · rw [hdefinition] at h
        cases h
      · rintro ⟨hinitial, ⟨explicit, h, hother⟩, -⟩
        rw [hdefinition] at h
        exact hother (Option.some.inj h ▸ hversion.trans hinitial)
    · rw [if_neg hversion] at hfound
      constructor
      · -- A revision that is not accepted has a definition.
        rintro hanswer ⟨hinitial, -, template, subst, htemplate⟩
        have hsome := templateDefinition_eq_some_iff.mpr ⟨hinitial, template, subst, htemplate, rfl⟩
        exact hversion (haccepted.mp (hanswer.accepted.mpr (by rw [hfound, hsome]; rfl)))
      · intro hresurrected
        have hnone : (after changes).definitionForRevision revision = none := by
          rw [hfound, Option.eq_none_iff_forall_not_mem]
          intro found hmem
          obtain ⟨hinitial, template, subst, htemplate, -⟩ := templateDefinition_eq_some_iff.mp hmem
          exact hresurrected ⟨hinitial, ⟨definition, hdefinition, hinitial ▸ hversion⟩, template, subst, htemplate⟩
        refine ⟨?_, fun _ _ found h => ?_, fun h => ?_⟩
        · rw [haccepted, hnone]
          exact iff_of_false hversion nofun
        · rw [hnone] at h
          cases h
        · rw [hdefinition] at h
          cases h

/-- A definition of the third version and a template: the first version is refused, and has a definition. -/
theorem oneAnswer_third_version : ¬ ∀ changes revision, OneAnswer changes revision := by
  intro h
  have hanswer := h [.setUrlTemplate "https://s.example/\x7bstyle_id\x7d", .upsertDefinition ⟨"a"⟩ ⟨"https://a.example", 3⟩]
    ⟨⟨"a"⟩, 1⟩
  exact absurd (hanswer.accepted.mpr (by decide +kernel)) (by decide +kernel)

end Biei.StyleCatalog
