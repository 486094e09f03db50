import StaticSite.Proofs.Document.Delimiters
import StaticSite.Proofs.Json.Values
import StaticSite.Proofs.Text.Escape

/-!
# Component properties

What a page tells about a component's attributes is what the author wrote: once the references in the value are
resolved and the text is read as JSON, each attribute is there under its name.
-/
namespace StaticSite

/-- What an attribute stands for: a text, the value that an expression spells, or else its source. -/
inductive AttributeValue.Means : AttributeValue → Json → Prop where
  | string (value : Text) : Means (.string value) (.string value)
  | flag : Means .flag (.bool true)
  | literal {source : Text} {v : Json} (h : Json.parse? source = some v) : Means (.expression source) v
  | source {source : Text} (h : Json.parse? source = none) : Means (.expression source) (.string source)

theorem AttributeValue.means_toJson (value : AttributeValue) : value.Means value.toJson := by
  cases value with
  | string value => exact .string value
  | flag => exact .flag
  | expression source =>
    rw [toJson]
    cases h : Json.parse? source with
    | none => exact .source h
    | some v => exact .literal h

theorem AttributeValue.within_toJson (value : AttributeValue) : value.toJson.Within Json.maxDepth := by
  have hdepth : 0 < Json.maxDepth := by decide
  cases value with
  | string value => exact ⟨.string value, hdepth⟩
  | flag => exact ⟨.bool true, hdepth⟩
  | expression source =>
    rw [toJson]
    cases h : Json.parse? source with
    | none => exact ⟨.string source, hdepth⟩
    | some v => exact Json.within_of_parse? h

/-- The properties of a component by name. -/
def propertyTable (attributes : List Attribute) : Table Json :=
  Table.ofEntries (attributes.map fun a => (a.name, a.value.toJson))

theorem mem_names_propertyTable (attributes : List Attribute) (name : Text) :
    name ∈ (propertyTable attributes).names ↔ ∃ a ∈ attributes, a.name = name := by
  simp [propertyTable, Table.mem_names_ofEntries_iff]

/-- Of attributes with one name the last counts. -/
theorem get?_propertyTable {earlier later : List Attribute} {a : Attribute} (h : ∀ b ∈ later, b.name ≠ a.name) :
    (propertyTable (earlier ++ a :: later)).get? a.name = some a.value.toJson := by
  rw [propertyTable, List.map_append, List.map_cons]
  refine Table.get?_ofEntries_of_last fun entry hentry => ?_
  obtain ⟨b, hb, rfl⟩ := List.mem_map.mp hentry
  exact h b hb

theorem within_componentProps (attributes : List Attribute) :
    (componentProps attributes).Within (Json.maxDepth + 1) := by
  refine .ofMembers (by decide) fun member hmember => ?_
  obtain ⟨a, -, rfl⟩ := List.mem_map.mp hmember
  exact a.value.within_toJson

theorem render_component_value {name : Text} {attributes : List Attribute} (children : List Node)
    (hname : isComponentName name = true) (hne : attributes ≠ []) :
    (Node.element name attributes children).render =
      "<div data-component=\"" ++ Text.escape name ++ "\" data-props=\"" ++
        Text.escape (componentProps attributes).print ++ "\">" ++ renderNodes children ++ "</div>\n" := by
  rw [Node.render_component _ _ _ hname, placeholderText, if_neg (by simpa using hne)]
  simp [attributeText]

/-- The value of the placeholder ends at its closing quote, and a reader that permits its nesting, at most one level more
than an expression may have, finds in it exactly the names of the attributes, each with what its last occurrence stands
for. That the floating-point numbers are read back is assumed of the reader. -/
theorem componentProps_read_back {name : Text} {attributes : List Attribute} (children : List Node)
    (hname : isComponentName name = true) (hne : attributes ≠ [])
    (hfloats : ∀ x ∈ (componentProps attributes).floats, x.ReadsBack) :
    ∃ (value : Text) (members : Table Json),
      (Node.element name attributes children).render =
        "<div data-component=\"" ++ Text.escape name ++ "\" data-props=\"" ++ value ++ "\">" ++
          renderNodes children ++ "</div>\n" ∧
      '"' ∉ value ∧
      (Json.object members).nesting ≤ Json.maxDepth ∧
      (∀ limit, (Json.object members).nesting < limit →
        Json.parseWithin? limit (Text.unescape value) = some (.object members)) ∧
      members.names.Nodup ∧ (∀ n, n ∈ members.names ↔ ∃ a ∈ attributes, a.name = n) ∧
      ∀ earlier a later, attributes = earlier ++ a :: later → (∀ b ∈ later, b.name ≠ a.name) →
        ∃ v, members.get? a.name = some v ∧ a.value.Means v := by
  have hwithin := within_componentProps attributes
  have hnesting : (componentProps attributes).nesting ≤ Json.maxDepth := Nat.le_of_lt_succ hwithin.nesting
  have hquote : '"' ∉ Text.escape (componentProps attributes).print :=
    Text.not_mem_of_delimiters (Text.delimiters_escape _) rfl
  refine ⟨_, propertyTable attributes, render_component_value children hname hne, hquote, hnesting, ?_, ?_, ?_, ?_⟩
  · intro limit hlimit
    rw [Text.unescape_escape]
    exact Json.parseWithin?_print hwithin.canonical hfloats hlimit
  · exact (Table.ofEntries_spec _).1.nodup
  · exact mem_names_propertyTable attributes
  · rintro earlier a later rfl hlater
    exact ⟨a.value.toJson, get?_propertyTable hlater, a.value.means_toJson⟩

namespace Card

/-- Text that looks escaped, quotes of both kinds, a repeated name, a number with a point and what is no JSON. -/
def attributes : List Attribute :=
  [⟨"title", .string "a \"b\" &quot; </div> \x7bc\x7d"⟩, ⟨"open", .flag⟩,
    ⟨"data", .expression "\x7b\"b\": [1, 2.5], \"a\": null\x7d"⟩, ⟨"run", .expression "x => x / 2"⟩,
    ⟨"title", .string "Tom & 'Ann'"⟩]

theorem readsBack : ∀ x ∈ (componentProps attributes).floats, x.ReadsBack := by decide +kernel

theorem last_title_read_back :
    ∃ (value : Text) (members : Table Json),
      (Node.element "Card" attributes []).render =
        "<div data-component=\"Card\" data-props=\"" ++ value ++ "\"></div>\n" ∧
      Json.parseWithin? (Json.maxDepth + 1) (Text.unescape value) = some (.object members) ∧
      members.get? "title" = some (.string "Tom & 'Ann'") ∧ members.get? "open" = some (.bool true) ∧
      members.get? "run" = some (.string "x => x / 2") := by
  obtain ⟨value, members, hrender, -, hnesting, hread, -, -, hlast⟩ :=
    componentProps_read_back [] (by decide : isComponentName "Card" = true) (by decide) readsBack
  have hname : Text.escape "Card" = "Card".toList := rfl
  rw [hname] at hrender
  refine ⟨value, members, by simpa [renderNodes] using hrender, hread _ (Nat.lt_succ_of_le hnesting), ?_, ?_, ?_⟩
  · obtain ⟨v, hv, hmeans⟩ := hlast (attributes.take 4) ⟨"title", .string "Tom & 'Ann'"⟩ [] rfl (by simp)
    cases hmeans
    exact hv
  · obtain ⟨v, hv, hmeans⟩ := hlast (attributes.take 1) ⟨"open", .flag⟩ (attributes.drop 2) rfl (by decide)
    cases hmeans
    exact hv
  · have hsource : Json.parse? "x => x / 2" = none := rfl
    obtain ⟨v, hv, hmeans⟩ := hlast (attributes.take 3) ⟨"run", .expression "x => x / 2"⟩ (attributes.drop 4) rfl
      (by decide)
    cases hmeans with
    | literal h =>
      rw [hsource] at h
      cases h
    | source _ => exact hv

end Card

end StaticSite
