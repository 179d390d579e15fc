/-
The settings of a project: what the documentation run and the knowledge run visit and do, how the
log looks, and where calls and metrics are recorded.
-/
import DocAtlas.Component.Run
import DocAtlas.Knowledge.Generate

namespace DocAtlas

/-- The settings of documentation runs. -/
structure DocsSection where
  dir : Text
  includes : Listing Text
  excludes : Listing Text
  timestamp : Bool
  skipEmpty : Bool
  wrappers : Listing Text
  respectIgnores : Bool
deriving DecidableEq, Repr

/-- The settings of knowledge runs. -/
structure KnowledgeSection where
  dir : Text
  output : Text
  includes : Listing Text
  excludes : Listing Text
deriving DecidableEq, Repr

/-- The settings of the log. -/
structure LogSection where
  level : Text
  format : Text
deriving DecidableEq, Repr

/-- The settings of a project. -/
structure ProjectSettings where
  docs : DocsSection
  knowledge : KnowledgeSection
  log : LogSection
  /-- The file calls are logged in; none if empty. -/
  callLogFile : Text
  /-- The file metrics are written to; none if empty. -/
  metricsFile : Text
deriving DecidableEq, Repr

namespace DocsSection

/-- The files of tests. -/
def testFiles : List Text := ["**/*.test.*", "**/*.spec.*"]

def default : DocsSection :=
  { dir := "src"
    includes := some DiscoveryRules.default.includes
    excludes := some (DiscoveryRules.default.excludes ++ testFiles)
    timestamp := true
    skipEmpty := false
    wrappers := some defaultWrappers
    respectIgnores := DiscoveryRules.default.respectIgnores }

/-- What a run visits. -/
def discovery (s : DocsSection) : DiscoveryRules := ⟨s.includes.getD [], s.excludes.getD [], s.respectIgnores⟩

/-- How components are documented at an instant. -/
def options (s : DocsSection) (now : Int) : DocOptions :=
  ⟨s.wrappers.getD defaultWrappers, if s.timestamp then some now else none, s.skipEmpty⟩

end DocsSection

namespace KnowledgeSection

def default : KnowledgeSection :=
  { dir := "."
    output := KnowledgeSettings.defaultOutput
    includes := some DiscoveryRules.default.includes
    excludes := some DiscoveryRules.default.excludes }

/-- The settings of a run. -/
def run (s : KnowledgeSection) : KnowledgeSettings :=
  ⟨s.dir, s.output, ⟨s.includes.getD [], s.excludes.getD [], DiscoveryRules.default.respectIgnores⟩⟩

end KnowledgeSection

namespace ProjectSettings

def default : ProjectSettings := ⟨DocsSection.default, KnowledgeSection.default, ⟨"info", "text"⟩, [], []⟩

end ProjectSettings

end DocAtlas
