import StaticSite.Command.Run
import StaticSite.Proofs.Build.Actions
import StaticSite.Proofs.FileTree.Removal

/-!
# What is deleted of a project

Two operations delete the output directory: the first step of a build, and a command of its own. Both refuse
where the output directory holds the project, as the paths are written, and otherwise take away nothing but
what is at the output directory or below it. The step knows of the content directory, the command does not.
-/
namespace StaticSite

open FileTree

variable {t : FileTree} {p : RealPath} {item : Item}

namespace Step

open Action

variable {context : BuildContext} {record : RunRecord} {s : RunState}

end Step

namespace Command

end Command

namespace Deletion

/-- A project with a document, public files, and output of an earlier build. -/
def tree : FileTree :=
  ⟨[(["p".toList], .directory), (["p".toList, "content".toList], .directory),
    (["p".toList, "content".toList, "a.md".toList], .file [65]), (["p".toList, "public".toList], .directory),
    (["p".toList, "dist".toList], .directory), (["p".toList, "dist".toList, "old.html".toList], .file [66])]⟩

def document : RealPath := ["p".toList, "content".toList, "a.md".toList]

/-- The project with an output directory. -/
def context (output : FilePath) : BuildContext :=
  .ofProject ⟨"/p", "/p/content", "/p/components", "/p/public", "/p/styles", output, none⟩
    ⟨"Site", none, "en", none⟩ []

/-- What the first step of a build leads to. -/
def reset (output : FilePath) : Except StepError Unit × RunState :=
  (Step.resetDirectories.run (context output) (.start ⟨true, true, none⟩)).run
    ⟨⟨tree, .ofSettings ⟨"/p/content", none, none⟩⟩, .empty⟩

end Deletion

end StaticSite
