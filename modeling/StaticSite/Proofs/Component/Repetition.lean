import StaticSite.Proofs.Component.Resolution

/-!
# Imports added again

When the imports of a document are added once more, nothing is left to add: the components that were imported
are bound by the statements that were written for them, those that could not be imported still cannot, and a
wrapper that was put around the document is invoked by it. What the component files say in the meantime decides
between two forms of a statement only, and not whether there is one.
-/
namespace StaticSite

/-- The name of an element. -/
def Node.elementName? : Node → Option Text
  | .element name _ _ => some name
  | _ => none

/-- No name of an element, at any depth, holds white space. -/
def Document.UnspacedElements (doc : Document) : Prop :=
  ∀ node ∈ Node.flattenAll doc, ∀ name ∈ node.elementName?, Text.Unspaced name

instance (doc : Document) : Decidable doc.UnspacedElements := List.decidableBAll _ _

theorem Document.UnspacedElements.unspaced {doc : Document} {name : Text} (h : doc.UnspacedElements)
    (hinvoked : doc.Invokes name) : name.Unspaced := by
  obtain ⟨node, hnode, hname⟩ := hinvoked
  cases node with
  | element full attributes children =>
    have hfull : Text.Unspaced full := h _ hnode full rfl
    rw [References.invokedBy?] at hname
    split_ifs at hname
    obtain rfl := Option.some.inj hname
    intro c hc
    apply hfull
    exact (List.takeWhile_prefix _).subset hc
  | _ => cases hname

/-- A component that is written as it is bound: no dot divides its name, and it holds no white space. -/
structure IsPlainComponent (name : Text) : Prop where
  component : isComponentName name = true
  no_dot : '.' ∉ name
  unspaced : name.Unspaced

instance (name : Text) : Decidable (IsPlainComponent name) :=
  decidable_of_iff (isComponentName name = true ∧ '.' ∉ name ∧ name.Unspaced)
    ⟨fun ⟨hcomponent, hdot, hname⟩ => ⟨hcomponent, hdot, hname⟩,
      fun ⟨hcomponent, hdot, hname⟩ => ⟨hcomponent, hdot, hname⟩⟩

theorem IsPlainComponent.rootName_eq {name : Text} (h : IsPlainComponent name) : rootName name = name := by
  rw [rootName, List.takeWhile_eq_self_iff]
  intro c hc
  have hne : c ≠ '.' := fun heq => h.no_dot (heq ▸ hc)
  simpa using hne

/-- Whether a statement can be written for an import does not depend on the kind of the import. -/
theorem EsModule.parse_statement_of_kind {name specifier : Text} {kind : ImportKind} {i : Import}
    (hname : name.Unspaced) (h : Import.parse (Import.statement ⟨name, kind, specifier⟩) = .ok i)
    (kind' : ImportKind) :
    Import.parse (Import.statement ⟨name, kind', specifier⟩) = .ok ⟨name, kind', specifier⟩ := by
  obtain ⟨-, hallowed⟩ := (parse_statement_eq_ok_iff (i := ⟨name, kind, specifier⟩) hname i).mp h
  exact (parse_statement_eq_ok_iff (i := ⟨name, kind', specifier⟩) hname _).mpr ⟨rfl, hallowed⟩

namespace Injection

variable {registry : Registry} {wrapper : Option Text} {file : SourceFile} {doc : Document} {name : Text}
  {imports imports' : List EsModule.Import} {first second : Injection}

/-! ## What the first run leaves -/

theorem Accounts.mem_of_mem (h : Accounts registry wrapper file doc imports first) {node : Node}
    (hnode : node ∈ Node.flattenAll doc) : node ∈ Node.flattenAll first.document := by
  by_cases hwraps : ∃ w, Wraps registry wrapper doc w
  · obtain ⟨w, hw⟩ := hwraps
    rw [(h.wrapped w hw).2.mem_iff]
    exact List.mem_append_right _ (List.mem_cons_of_mem _ hnode)
  · rw [(h.unwrapped (not_exists.mp hwraps)).2.mem_iff]
    exact List.mem_append_right _ hnode

theorem Accounts.mem_of_import (h : Accounts registry wrapper file doc imports first) {i : EsModule.Import}
    (hi : i ∈ imports) : .declarations i.statement ∈ Node.flattenAll first.document := by
  have hnode : .declarations i.statement ∈ importNodes imports := List.mem_map_of_mem hi
  by_cases hwraps : ∃ w, Wraps registry wrapper doc w
  · obtain ⟨w, hw⟩ := hwraps
    rw [(h.wrapped w hw).2.mem_iff]
    exact List.mem_append_left _ hnode
  · rw [(h.unwrapped (not_exists.mp hwraps)).2.mem_iff]
    exact List.mem_append_left _ hnode

theorem Accounts.invokes (h : Accounts registry wrapper file doc imports first) (hname : doc.Invokes name) :
    first.document.Invokes name := by
  obtain ⟨node, hnode, hinvoked⟩ := hname
  exact ⟨node, h.mem_of_mem hnode, hinvoked⟩

theorem Accounts.binds (h : Accounts registry wrapper file doc imports first) (hname : doc.Binds name) :
    first.document.Binds name := by
  obtain ⟨node, hnode, hbound⟩ := hname
  exact ⟨node, h.mem_of_mem hnode, hbound⟩

/-- The statement of an import binds its name where it stands. -/
theorem Accounts.binds_import (h : Accounts registry wrapper file doc imports first) {i : EsModule.Import}
    (hi : i ∈ imports) (hident : EsModule.isIdentifier i.binding = true) :
    first.document.Binds i.binding :=
  ⟨_, h.mem_of_import hi, EsModule.mem_boundIdentifiers_statement hident⟩

/-- No wrapper is put around a document a second time: it is invoked by the element of the first time. -/
theorem Accounts.not_wraps (h : Accounts registry wrapper file doc imports first)
    (hwrapper : ∀ w ∈ wrapper, IsPlainComponent w) (name : Text) :
    ¬Wraps registry wrapper first.document name := by
  intro hwraps
  have hfirst : Wraps registry wrapper doc name :=
    ⟨hwraps.setting, hwraps.registered, fun hinvoked => hwraps.not_invoked (h.invokes hinvoked),
      fun hbound => hwraps.not_bound (h.binds hbound)⟩
  have hplain : IsPlainComponent name := hwrapper name hwraps.setting
  apply hwraps.not_invoked
  rw [h.invokes_iff]
  right
  exact ⟨name, hfirst, hplain.component, hplain.rootName_eq⟩

/-- What a document needs after an injection, it needed before. -/
theorem Accounts.needs_of_needs (h : Accounts registry wrapper file doc imports first)
    (hwrapper : ∀ w ∈ wrapper, IsPlainComponent w) (hneeds : Needs registry wrapper first.document name) :
    Needs registry wrapper doc name := by
  obtain ⟨hsome, hbound⟩ := hneeds
  refine ⟨?_, fun hbinds => hbound (h.binds hbinds)⟩
  rcases hsome with hinvoked | hwraps
  · rw [h.invokes_iff] at hinvoked
    rcases hinvoked with hinvoked | ⟨w, hw, -, hroot⟩
    · left
      exact hinvoked
    · right
      rwa [← hroot, (hwrapper w hw.setting).rootName_eq]
  · exact absurd hwraps (h.not_wraps hwrapper name)

theorem Needs.unspaced (hneeds : Needs registry wrapper doc name) (hnames : doc.UnspacedElements)
    (hwrapper : ∀ w ∈ wrapper, IsPlainComponent w) : name.Unspaced := by
  rcases hneeds.1 with hinvoked | hwraps
  · exact hnames.unspaced hinvoked
  · exact (hwrapper name hwraps.setting).unspaced

/-! ## The second run -/

/-- An import of a file that the second run adds is one that the first run would have added. -/
theorem Treated.imports_ne_nil {reports : List Diagnostic} {path : FilePath} {kind : EsModule.ImportKind}
    {i : EsModule.Import} (h : Treated registry file name imports reports) (hname : name.Unspaced)
    (hfiles : registry.files name = [path])
    (hparse : EsModule.Import.parse
      (EsModule.Import.statement ⟨name, kind, FilePath.specifier file.directory path⟩) = .ok i) :
    ∃ kind', imports = [⟨name, kind', FilePath.specifier file.directory path⟩] := by
  cases h with
  | unregistered hnone => simp [hnone] at hfiles
  | ambiguous hmany => simp [hfiles] at hmany
  | imported path' kind' _ hfiles' _ =>
    obtain rfl : path = path' := by simpa [hfiles] using hfiles'
    exact ⟨kind', rfl⟩
  | malformed path' kind' e hfiles' hmalformed =>
    obtain rfl : path = path' := by simpa [hfiles] using hfiles'
    rw [EsModule.parse_statement_of_kind hname hparse kind'] at hmalformed
    cases hmalformed

theorem Accounts.second_imports_nil (h : Accounts registry wrapper file doc imports first)
    (h' : Accounts registry wrapper file first.document imports' second) (hnames : doc.UnspacedElements)
    (hwrapper : ∀ w ∈ wrapper, IsPlainComponent w) : imports' = [] := by
  rw [List.eq_nil_iff_forall_not_mem]
  intro i hi
  have hneeds' := h'.only_needed_imported i hi
  have hneeds := h.needs_of_needs hwrapper hneeds'
  have hname := hneeds.unspaced hnames hwrapper
  have hown : i ∈ imports'.filter (·.binding = i.binding) := by simp [hi]
  have htreated' := h'.treated i.binding hneeds'
  generalize imports'.filter (·.binding = i.binding) = own at hown htreated'
  generalize second.diagnostics.filter (·.component = i.binding) = reports at htreated'
  cases htreated' with
  | unregistered | ambiguous | malformed => cases hown
  | imported path kind j hfiles hparse =>
    obtain ⟨kind', hadded⟩ := (h.treated i.binding hneeds).imports_ne_nil hname hfiles hparse
    obtain ⟨-, hident, -⟩ := (EsModule.parse_statement_eq_ok_iff
      (i := ⟨i.binding, kind, FilePath.specifier file.directory path⟩) hname j).mp hparse
    have hmem : ⟨i.binding, kind', FilePath.specifier file.directory path⟩ ∈
        imports.filter (·.binding = i.binding) := by simp [hadded]
    -- the first run has bound the name, so that the second has no need of it
    have hbound := h.binds_import (List.mem_filter.mp hmem).1 hident
    exact hneeds'.2 hbound

/-- Adding imports to a document to which they have been added adds none and leaves it as it is, whatever the
component files and the cache of their exports have become. -/
theorem inject_again (tree tree' : FileTree) (registry : Registry) (wrapper : Option Text)
    (file : SourceFile) (doc : Document) (exports exports' : ExportCache) (hnames : doc.UnspacedElements)
    (hwrapper : ∀ w ∈ wrapper, IsPlainComponent w) :
    let once := (inject tree registry wrapper file doc exports).document
    let again := inject tree' registry wrapper file once exports'
    again.count = 0 ∧ again.document = once := by
  intro once again
  obtain ⟨imports, h⟩ := inject_accounts tree registry wrapper file doc exports
  obtain ⟨imports', h'⟩ := inject_accounts tree' registry wrapper file once exports'
  obtain rfl : imports' = [] := h.second_imports_nil h' hnames hwrapper
  obtain ⟨front, rest, honce, hagain, -, -⟩ := (h'.unwrapped (h.not_wraps hwrapper)).1
  constructor
  · exact h'.count
  · calc again.document = front ++ importNodes [] ++ rest := hagain
      _ = front ++ rest := by simp [importNodes]
      _ = once := honce.symm

/-- A page with a component that is imported, one that two files define, and one whose name is no identifier. -/
def notice : Document :=
  [.frontMatter [], .element "Card" [] [.element "My-Card" [] []], .declarations "export const note = 1",
    .element "Button.Icon" [] []]

def noticeFile : SourceFile := ⟨"/site/content/notice.mdx", "/site/content/notice.mdx"⟩

def noticeComponents : List (Text × FilePath) :=
  [("Card", "/site/components/Card.tsx"), ("Layout", "/site/components/Layout.tsx"),
    ("My-Card", "/site/components/My-Card.tsx"), ("Button", "/site/components/a/Button.tsx"),
    ("Button", "/site/components/b/Button.tsx")]

def noticeRegistry : Registry := noticeComponents.foldl (fun r (name, path) => r.insert name path) .empty

/-- The same project after a default export has been written into a component file. -/
def revisedTree : FileTree :=
  ⟨[(["site".toList], .directory), (["site".toList, "components".toList], .directory),
    (["site".toList, "components".toList, "Card.tsx".toList], .file (Text.bytes "export default Card"))]⟩

theorem notice_settled_at_once :
    let once := inject .empty noticeRegistry (some "Layout".toList) noticeFile notice .empty
    let again := inject revisedTree noticeRegistry (some "Layout".toList) noticeFile once.document .empty
    notice.UnspacedElements ∧ (∀ w ∈ some "Layout".toList, IsPlainComponent w) ∧
      once.count = 2 ∧ once.diagnostics.length = 2 ∧ again.count = 0 ∧ again.document = once.document := by
  intro once again
  have hnames : notice.UnspacedElements := by decide
  have hwrapper : ∀ w ∈ some "Layout".toList, IsPlainComponent w := by decide
  have hagain := inject_again .empty revisedTree noticeRegistry (some "Layout".toList) noticeFile notice
    .empty .empty hnames hwrapper
  exact ⟨hnames, hwrapper, by decide, by decide, hagain⟩

end Injection

end StaticSite
