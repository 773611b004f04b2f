import Paddock.Environment
import Paddock.Path.Place

/-!
# Where settings are read from

The user's file lies in the configuration directory of the environment, the workspace's below the
directory that a command is given in.
-/

namespace Paddock.Settings

set_option autoImplicit false

def programName : Text := "blackpepper"

def fileName : Text := "pepper.toml"

def below (directory : Place) : Place := (directory.child programName).child fileName

def isRooted (x : Text) : Bool := x.head? = some Text.slash

/-- The home directory where the environment names none from the root on. -/
def accountHome : Text := "/root"

/-- The home directory, without slashes at its end. -/
def home (env : Environment) : Text :=
  let named := env.valueOf "HOME"
  let home := if named = [] || isRooted named then named else accountHome
  (home.reverse.dropWhile (· == Text.slash)).reverse

/-- The user's configuration directory: what a variable names from the root on, or else `.config` in
the home directory. -/
def userDirectory (env : Environment) : Text :=
  let named := env.valueOf "XDG_CONFIG_HOME"
  if isRooted named then named else home env ++ Text.ofString "/.config"

def userFile (env : Environment) : Place := below (.ofText (userDirectory env))

def workspaceFile (cwd : Place) : Place := below (cwd.child (Text.ofString ".config"))

end Paddock.Settings
