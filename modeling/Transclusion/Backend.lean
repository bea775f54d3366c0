import Transclusion.Args
import Transclusion.Content
import Transclusion.Plan
import Transclusion.Run

/-!
# Backends

* `Backend` : listing by pattern, opening one path, opening all paths of a pattern;
* `Backend.openListed` : opening all paths of a pattern by the other two;
* `Call`, `Backend.logged` : a backend that notes each call.
-/

namespace Transclusion

/-- Where files are listed and opened. -/
structure Backend (m : Type → Type) where
  /-- The paths that match a pattern. -/
  glob : String → Args → Run m (List String)
  /-- One file. -/
  openOne : String → Args → Run m Opened
  /-- Every file that matches a pattern. -/
  openMatching : String → Args → Run m (List Opened)

variable {m : Type → Type} [Monad m]

/-- Open every listed path. The depth limit is for the listing, all else for each opening. -/
def Backend.openListed (glob : String → Args → Run m (List String))
    (openOne : String → Args → Run m Opened) (pattern : String) (args : Args) :
    Run m (List Opened) := do
  let (forListing, forOpening) := args.partition [depthKey]
  (← glob pattern forListing).mapM fun path => openOne path forOpening

def Backend.ofListing (glob : String → Args → Run m (List String))
    (openOne : String → Args → Run m Opened) : Backend m :=
  ⟨glob, openOne, openListed glob openOne⟩

/-! ## Noting calls -/

inductive Call where
  | glob (pattern : String) (args : Args)
  | openOne (path : String) (args : Args)
  | openMatching (pattern : String) (args : Args)
  deriving Inhabited

/-- A backend that notes each call before it makes it. -/
def Backend.logged (note : Call → m Unit) (b : Backend m) : Backend m where
  glob pattern args := do ExceptT.lift (note (.glob pattern args)); b.glob pattern args
  openOne path args := do ExceptT.lift (note (.openOne path args)); b.openOne path args
  openMatching pattern args := do
    ExceptT.lift (note (.openMatching pattern args)); b.openMatching pattern args

end Transclusion
