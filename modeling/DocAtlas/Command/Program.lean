/-
The commands of the program, and what each says of itself.
-/
import DocAtlas.Command.Spec
import DocAtlas.Product

namespace DocAtlas.Program

/-- Lines of text. -/
def lines (ls : List Text) : Text := Text.joinWith "\n" ls

/-- Where the settings of a project are. -/
def settingsPath : Text := ".quickgen/config.yaml"

def jsonResult : Flag := .switch "json" "print the run result as JSON"

def json : Flag := .switch "json" "print JSON"

def rootDir : Flag := .text "dir" "project root (default from config, else .)"

def react : Command :=
  .mk
    { Command.leaf "react" "Insert JSDoc blocks above React components"
        (lines
          ["Scan a directory for React components and insert a JSDoc block above",
           "each one that does not have an @component block yet. Props are inferred from",
           "the first parameter.",
           "",
           "Files that fail to parse are reported and skipped; only an unreadable",
           "directory or invalid patterns make the command fail.",
           "",
           "Examples:",
           "  quickgen react",
           "  quickgen react --dir app --dry-run",
           "  quickgen docs --no-timestamp"])
        [.text "dir" "directory to scan (default from config, else src)",
         .switch "dry-run" "print a diff instead of writing files",
         .switch "no-timestamp" "omit the @generated line",
         .switch "skip-empty" "skip components without inferred props",
         jsonResult]
        .document with
      aliases := ["docs"] }
    []

def generate : Command :=
  .mk (Command.leaf "generate" "Scan the project and write the knowledge base" [] [jsonResult] .generate) []

def query : Command :=
  .mk
    { Command.leaf "query" "Show the symbols, imports and calls recorded for one file"
        (lines
          ["Show everything recorded for one file. FILE is the path relative to the",
           "project root, as listed in .knowledge/manifest.json.",
           "",
           "Examples:",
           "  quickgen knowledge query src/App.jsx",
           "  quickgen knowledge query src/utils/date.ts --json"])
        [json] .query with
      operands := " FILE"
      arity := .exactly 1 }
    []

def trace : Command :=
  .mk
    { Command.leaf "trace" "Show where a symbol is defined, called and imported"
        (lines
          ["Trace a symbol by name across the knowledge base. Calls and imports",
           "match by name only.",
           "",
           "Examples:",
           "  quickgen knowledge trace formatDate",
           "  quickgen knowledge trace useCart --detailed"])
        [.switch "detailed" "include the source of each definition", json] .trace with
      operands := " SYMBOL"
      arity := .exactly 1 }
    []

def watch : Command :=
  .mk (Command.leaf "watch" "Regenerate the knowledge base whenever a source file changes" [] [] .watch) []

def knowledge : Command :=
  .mk
    { name := "knowledge"
      operands := []
      aliases := []
      short := "Build and query the code knowledge base"
      long := lines
        ["Commands for the knowledge base: per-file symbols, imports, exports,",
         "references and function calls, saved as JSON under .knowledge/.",
         "",
         "Subcommands:",
         "  generate  - Scan the project and write the knowledge base",
         "  query     - Show what was recorded for one file",
         "  trace     - Show where a symbol is defined, called and imported",
         "  watch     - Regenerate whenever a source file changes"]
      flags := []
      shared := [rootDir, .text "output" "knowledge directory, relative to the root (default .knowledge)"]
      arity := .any
      action := none
      bareUse := false }
    [generate, query, trace, watch]

def serve : Command :=
  .mk
    (Command.leaf "serve" "Start the MCP server on stdin/stdout"
      (lines
        ["Serve the knowledge base and the documentation preview to MCP clients",
         "over stdio. Tools: query_file, trace_symbol, list_components, preview_docs.",
         "",
         "With --watch the knowledge base is regenerated on every source change and",
         "the server picks up the new data immediately."])
      [rootDir, .switch "watch" "regenerate the knowledge base on change"] .serve)
    []

def init : Command :=
  .mk
    (Command.leaf "init" "Write a default .quickgen/config.yaml" []
      [.switch "force" "overwrite an existing config"] .init)
    []

def setup : Command :=
  .mk
    (Command.leaf "setup" "Register the quickgen MCP server with installed agents" []
      [.switch "auto" "register with every detected agent without asking"] .setup)
    []

def versionCommand : Command := .mk (Command.leaf "version" "Print version" [] [] .version) []

def help : Command :=
  .mk
    { Command.leaf "help" "Help about any command"
        (lines
          ["Help provides help for any command in the application.",
           "Simply type quickgen help [path to command] for full details."])
        [] .help with
      operands := " [command]"
      arity := .any }
    []

/-! ## Completion scripts -/

/-- The command that prints the completion script of a shell. -/
def completionOf (shell about : Text) : Command :=
  .mk
    (Command.leaf shell ("Generate the autocompletion script for " ++ shell) about
      [.switch "no-descriptions" "disable completion descriptions"] (.completion shell))
    []

def bash : Command :=
  let c := completionOf "bash"
    (lines
      ["Generate the autocompletion script for the bash shell.",
       "",
       "This script depends on the 'bash-completion' package.",
       "If it is not installed already, you can install it via your OS's package manager.",
       "",
       "To load completions in your current shell session:",
       "",
       "\tsource <(quickgen completion bash)",
       "",
       "To load completions for every new session, execute once:",
       "",
       "#### Linux:",
       "",
       "\tquickgen completion bash > /etc/bash_completion.d/quickgen",
       "",
       "#### macOS:",
       "",
       "\tquickgen completion bash > $(brew --prefix)/etc/bash_completion.d/quickgen",
       "",
       "You will need to start a new shell for this setup to take effect."])
  .mk { c.info with bareUse := true } []

def fish : Command :=
  completionOf "fish"
    (lines
      ["Generate the autocompletion script for the fish shell.",
       "",
       "To load completions in your current shell session:",
       "",
       "\tquickgen completion fish | source",
       "",
       "To load completions for every new session, execute once:",
       "",
       "\tquickgen completion fish > ~/.config/fish/completions/quickgen.fish",
       "",
       "You will need to start a new shell for this setup to take effect."])

def powershell : Command :=
  completionOf "powershell"
    (lines
      ["Generate the autocompletion script for powershell.",
       "",
       "To load completions in your current shell session:",
       "",
       "\tquickgen completion powershell | Out-String | Invoke-Expression",
       "",
       "To load completions for every new session, add the output of the above command",
       "to your powershell profile."])

def zsh : Command :=
  completionOf "zsh"
    (lines
      ["Generate the autocompletion script for the zsh shell.",
       "",
       "If shell completion is not already enabled in your environment you will need",
       "to enable it.  You can execute the following once:",
       "",
       "\techo \"autoload -U compinit; compinit\" >> ~/.zshrc",
       "",
       "To load completions in your current shell session:",
       "",
       "\tsource <(quickgen completion zsh)",
       "",
       "To load completions for every new session, execute once:",
       "",
       "#### Linux:",
       "",
       "\tquickgen completion zsh > \"$\x7bfpath[1]\x7d/_quickgen\"",
       "",
       "#### macOS:",
       "",
       "\tquickgen completion zsh > $(brew --prefix)/share/zsh/site-functions/_quickgen",
       "",
       "You will need to start a new shell for this setup to take effect."])

def completion : Command :=
  .mk
    { name := "completion"
      operands := []
      aliases := []
      short := "Generate the autocompletion script for the specified shell"
      long := lines
        ["Generate the autocompletion script for quickgen for the specified shell.",
         "See each sub-command's help for details on how to use the generated script."]
      flags := []
      shared := []
      arity := .exactly 0
      action := none
      bareUse := false }
    [bash, fish, powershell, zsh]

/-- The program. -/
def root : Command :=
  .mk
    { name := Product.name
      operands := []
      aliases := []
      short := "Document React components and index JS/TS code for agents"
      long := lines
        ["quickgen inserts JSDoc blocks above React components, builds a",
         "knowledge base of symbols, imports and calls, and serves both over MCP.",
         "",
         "Settings come from flags, then .quickgen/config.yaml, then defaults."]
      flags := []
      shared :=
        [{ Flag.text "config" "project config file" with default := settingsPath },
         .text "log-level" "log level: debug, info, warn, error",
         .text "log-format" "log format: text or json"]
      arity := .any
      action := none
      bareUse := false }
    [react, knowledge, serve, init, setup, versionCommand, help, completion]

end DocAtlas.Program
