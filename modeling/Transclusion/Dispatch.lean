import Transclusion.Http.Remote
import Transclusion.Local

/-!
# Backends by scheme

* `Backend.byScheme` : files on the disk and on the web, by the scheme of each path;
* `Backend.standard` : the backend of a disk and a web.
-/

namespace Transclusion
namespace Backend

variable {m : Type → Type} [Monad m]

/-- The backend of a path: one for paths without a scheme and of scheme `file`, another for URLs of
the web. -/
def choose (files web : Backend m) (path : String) : Except Fault (Backend m) :=
  match Target.scheme? path with
  | none | some "file" => .ok files
  | some "http" | some "https" => .ok web
  | some scheme => .error (.unsupportedScheme scheme path)

def byScheme (files web : Backend m) : Backend m where
  glob pattern args := do (← Run.ofExcept (choose files web pattern)).glob pattern args
  openOne path args := do (← Run.ofExcept (choose files web path)).openOne path args
  openMatching pattern args := do (← Run.ofExcept (choose files web pattern)).openMatching pattern args

def standard (disk : Disk m) (web : Web m) (settings : Http.Settings) : Backend m :=
  byScheme (Local.backend disk) (Http.backend web settings)

end Backend
end Transclusion
