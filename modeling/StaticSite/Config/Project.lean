import StaticSite.Config.SettingsFile
import StaticSite.Config.Variables
import StaticSite.FileTree.Basic
import StaticSite.Text.Bytes

/-!
# The configuration of a project

What can be set about a project. Everything has a default, so a project need not have a settings file; what
variables of the environment say counts for more than the file.
-/
namespace StaticSite

structure SiteConfig where
  name : Text
  url : Option Text
  /-- The path under which the site is served. -/
  basePath : Option Text
  language : Text
  description : Option Text
deriving DecidableEq

/-- The directories of a project, relative to its root. -/
structure PathsConfig where
  content : FilePath
  components : FilePath
  static : FilePath
  styles : FilePath
  output : FilePath
  /-- The template of page shells. -/
  shell : Option FilePath
deriving DecidableEq

structure BuildConfig where
  prerender : Bool
  staticCopy : Bool
  /-- The component around every page; none when it is empty. -/
  pageWrapper : Text
deriving DecidableEq

structure Config where
  site : SiteConfig
  paths : PathsConfig
  build : BuildConfig
deriving DecidableEq

namespace Config

/-! ## Reading the sections -/

/-- A setting of a section, or its default. -/
def setting? (read : Setting → Option α) (name : String) (default : α) (entries : Table Setting) :
    Option α :=
  match entries.get? name.toList with
  | some s => read s
  | none => some default

/-- A text that may be left out. -/
def optionalText? : Setting → Option (Option Text)
  | .null => some none
  | s => s.text?.map some

/-- A section of the settings; a section that is left out is empty. -/
def section? (name : String) (names : List String) (settings : Setting) : Option (Table Setting) :=
  match settings.entries.get? name.toList with
  | some s => s.section? (names.map String.toList)
  | none => some []

def site? (settings : Setting) : Option SiteConfig := do
  let s ← section? "site" ["name", "url", "base_path", "lang", "description"] settings
  some ⟨← setting? Setting.text? "name" "Site" s, ← setting? optionalText? "url" none s,
    ← setting? optionalText? "base_path" none s, ← setting? Setting.text? "lang" "en" s,
    ← setting? optionalText? "description" none s⟩

def paths? (settings : Setting) : Option PathsConfig := do
  let s ← section? "paths" ["content", "components", "public", "styles", "output", "shell"] settings
  some ⟨← setting? Setting.text? "content" "content" s, ← setting? Setting.text? "components" "components" s,
    ← setting? Setting.text? "public" "public" s, ← setting? Setting.text? "styles" "styles" s,
    ← setting? Setting.text? "output" "dist" s, ← setting? optionalText? "shell" none s⟩

def build? (settings : Setting) : Option BuildConfig := do
  let s ← section? "build" ["prerender", "static_copy", "page_wrapper"] settings
  some ⟨← setting? Setting.bool? "prerender" true s, ← setting? Setting.bool? "static_copy" true s,
    ← setting? Setting.text? "page_wrapper" "Layout" s⟩

/-- The configuration that settings stand for, if each has a value of its type. -/
def ofSettings? (settings : Setting) : Option Config := do
  some ⟨← site? settings, ← paths? settings, ← build? settings⟩

/-! ## Loading -/

/-- The names under which the settings file of a project is looked for. -/
def fileNames : List Text := ["pagewright.yaml", "pagewright.yaml.yaml", "pagewright.yaml.yml"]

/-- The text of bytes after a byte order mark. -/
def fileText (bytes : List UInt8) : Text :=
  Text.ofAnyBytes (match bytes with
    | 0xEF :: 0xBB :: 0xBF :: rest => rest
    | bytes => bytes)

/-- The settings in the file of a project. A file that is missing gives none. -/
def fileSettings? (tree : FileTree) (root : FilePath) : Option (Table Setting) :=
  let bytes? (name : Text) := match tree.find? true (FilePath.join root name) with
    | .ok (_, .file bytes) => some bytes
    | _ => none
  match fileNames.findSome? bytes? with
  | some bytes => Setting.tableOfText? (fileText bytes)
  | none => some []

/-- The configuration of the project at a root, unless its settings cannot be read. -/
def load? (tree : FileTree) (environment : List Setting.Variable) (root : FilePath) : Option Config := do
  let file ← fileSettings? tree root
  let settings := (Setting.overlay (.table []) file).overlay (Setting.tableOfVariables environment)
  ofSettings? settings

end Config

end StaticSite
