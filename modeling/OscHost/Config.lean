import OscHost.Cli
import OscHost.Error
import OscHost.Files.Tree
/-!
  Startup configuration: everything that is fixed before scripts run.
-/

namespace OscHost

/-- The script that runs first, below the script root. -/
def entryScript : String := "main.lua"

/-- The script that returns the menu, below the script root. -/
def menuScript : String := "config/context_menu.lua"

/-- The configuration of a host. -/
structure Config where
  scriptRoot : String
  ioRoot : String
  policy : Policy := {}
  tickMs : Nat := 100
  refreshSecs : Nat := 5

namespace Config

/-- Defaults around a script root: nothing allowed. -/
def new (scriptRoot : String) : Config := ⟨scriptRoot, Files.Path.join scriptRoot "io_dir", {}, 100, 5⟩

/-- The path of the first script. -/
def entryPath (c : Config) : String := Files.Path.join c.scriptRoot entryScript

/-- Makes the io root and the directories above it; a relative one is found from the current
    directory. -/
def makeIoRoot (c : Config) (current : String) (t : Files.Tree) : Except HostError Files.Tree :=
  match t.makeDirectories (Files.Path.join current c.ioRoot) with
  | .ok t => .ok t
  | .error e => .error (.hostFatal ("cannot create " ++ c.ioRoot ++ ": " ++ e.numbered))

/-- The configuration of a command line: the script root made absolute, the intervals at least
    one, and the io root made. -/
def ofOptions (o : Cli.Options) (current : String) (t : Files.Tree) :
    Except HostError (Config × Files.Tree) := do
  let c : Config := { Config.new (Files.Path.join current o.scriptRoot) with
    policy := o.policy
    tickMs := max o.tickIntervalMs 1
    refreshSecs := max o.refreshIntervalSecs 1 }
  let t ← c.makeIoRoot current t
  pure (c, t)

end Config

end OscHost
