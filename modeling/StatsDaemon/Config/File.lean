import StatsDaemon.Config
import StatsDaemon.Text.Utf8
import StatsDaemon.Yaml.Schema

namespace StatsDaemon.Config

inductive File where
  | missing
  | closed (reason : String)
  | content (bytes : List UInt8)

-- A path taken from within a folder; an absolute one stays.
def within (folder path : String) : String :=
  if path.startsWith "/" then path
  else if folder.endsWith "/" then folder ++ path
  else folder ++ "/" ++ path

def filePath (folder : String) : String :=
  within folder "config.yml"

def ofFile (processors : Nat) (path : String) : File → Except Fault Config
  | .missing => .ok (.default processors)
  | .closed reason => .error (.cannotOpen path reason)
  | .content bytes =>
    match ((Text.decode? bytes).bind Yaml.Node.parse?).bind (ofDocument? processors) with
    | some c => .ok c
    | none => .error (.badYaml path)

end StatsDaemon.Config
