import StaticSite.Build.SiteBuilder
import StaticSite.Proofs.Build.Agreement
import StaticSite.Proofs.Command.Deletion
import StaticSite.Proofs.FileTree.Emptying

/-!
# Building again

A build forgets everything about earlier ones: of the stage of its builder it keeps the settings alone, and it
removes what an earlier build may have left in the output directory. So its outcome depends on nothing but what
stands elsewhere. All this holds of an output directory that its path ends with; a path that ends in a dot names a
directory that cannot be removed.
-/
namespace StaticSite

open FileTree

/-! ## Emptying the output directory -/

namespace Step

open Action

variable {context : BuildContext} {s s' : RunState} {settings : StageSettings}
  {way : List FilePath.Part} {base : RealPath} {ns : List Text}

end Step

namespace SiteBuilder

/-- A builder after a number of builds, whatever they found and however they went. -/
inductive Reused (b : SiteBuilder) : SiteBuilder → Prop where
  | new : Reused b b
  | built {b' : SiteBuilder} {t : FileTree} (before : Reused b b') (disk : t.OnDisk) :
      Reused b { b' with stage := (b'.build t).state.workspace.stage }

variable {b b' : SiteBuilder} {t t' : FileTree}

/-- A build leaves the settings of its stage. -/
theorem settings_build {paths : ProjectPaths} {site : SiteInfo} {shell : Template}
    (hcontext : b.context = .ofProject paths site shell) (h : t.OnDisk) :
    (b.build t).state.workspace.stage.settings = b.stage.settings := by
  have hstart : RunState.Twins b.stage.settings ⟨⟨t, b.stage.reset⟩, .empty⟩ ⟨⟨t, b.stage.reset⟩, .empty⟩ :=
    ⟨⟨⟨.refl t, h, h⟩, rfl, rfl⟩, rfl⟩
  have hrun := Pipeline.runFrom_twins (Pipeline.default_agrees paths site shell) (.start b.options) hstart
  rw [build, Pipeline.run, hcontext]
  exact hrun.state.workspace.settings

/-- After any number of builds a builder starts as a new one does. -/
theorem Reused.same {paths : ProjectPaths} {site : SiteInfo} {shell : Template}
    (hcontext : b.context = .ofProject paths site shell) (h : b.Reused b') :
    b'.context = b.context ∧ b'.options = b.options ∧ b'.stage.reset = b.stage.reset := by
  induction h with
  | new => exact ⟨rfl, rfl, rfl⟩
  | @built b' t _ hdisk ih =>
    obtain ⟨hsame, hoptions, hstage⟩ := ih
    refine ⟨hsame, hoptions, ?_⟩
    rw [← hstage, Stage.reset, Stage.reset, settings_build (hsame.trans hcontext) hdisk]

namespace Again

/-- A project whose template says nothing of the page. -/
def project : FileTree :=
  ⟨[(["p".toList], .directory), (["p".toList, "content".toList], .directory),
    (["p".toList, "content".toList, "a.md".toList], .file [65]), (["p".toList, "shell.html".toList], .file [66])]⟩

/-- The project with an output directory that has been used. -/
def used : FileTree :=
  ⟨[(["p".toList, "dist".toList], .directory), (["p".toList, "dist".toList, "old.html".toList], .file [67])] ++
    project.items⟩

def config (output : FilePath) : Config :=
  ⟨⟨"Site", none, none, "en", none⟩, ⟨"content", "components", "public", "styles", output, some "shell.html"⟩,
    ⟨true, true, []⟩⟩

end Again

end SiteBuilder

end StaticSite
