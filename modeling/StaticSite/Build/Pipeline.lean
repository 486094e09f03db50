import StaticSite.Build.Assets
import StaticSite.Build.Content
import StaticSite.Build.Pages

/-!
# The default pipeline

The steps of a build in their order.
-/
namespace StaticSite

namespace Pipeline

def default : Pipeline :=
  [.single Step.resetDirectories,
   .group [Step.discoverEntries, Step.scanComponents],
   .single Step.compileContent,
   .group [Step.generateStyles, Step.copyStatic, Step.prerender],
   .single Step.writeShells,
   .single Step.injectHead]

end Pipeline

end StaticSite
