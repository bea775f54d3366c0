import Transclusion.Args
import Transclusion.Glob.Pattern
import Transclusion.Path
import Transclusion.Plan

/-!
# The root of a pattern

* `Glob.splitRoot` : the segments of a pattern before the first with a wildcard, and from it on;
* `Glob.depthLimit` : how many names below the root a match has at most;
* `Glob.limitOfArgs` : the depth limit among the arguments of a listing;
* `Glob.matcher` : a pattern, or the failure of its listing.
-/

namespace Transclusion.Glob

def segments (pattern : String) : List String :=
  (Text.splitOn '/' pattern.toList).map String.ofList

def joinSegments (l : List String) : String :=
  String.ofList (Text.joinWith '/' (l.map String.toList))

/-- The segments before the first with a wildcard, and all others. -/
def splitRoot (pattern : String) : List String × List String :=
  (segments pattern).span fun s => !Path.hasWildcard s

/-- The segment that stands for any number of directories. -/
def deepSegment : String := "**"

/-- How many names below the root a match has at most. Where the pattern has no `**` that follows
from its segments, and otherwise `maxdepth` is what each `**` may add. -/
def depthLimit (segments : List String) (maxdepth : Option Nat) : Option Nat :=
  let plain := segments.countP (· != deepSegment)
  if segments.contains deepSegment then maxdepth.map (plain + ·) else some plain

/-- The depth limit among the arguments of a listing, which has no other options. -/
def limitOfArgs (pattern : String) (args : Args) : Except Transclusion.Fault (Option Nat) :=
  let unknown := args.unknownKeys [depthKey]
  if !unknown.isEmpty then .error (.config (.globKeys pattern unknown))
  else if 1 < args.positional.length then .error (.config (.globPositions pattern))
  else match args.get? depthKey 0 with
    | some v => depth v
    | none => .ok none

def matcher (pattern : String) : Except Transclusion.Fault Matcher :=
  match Matcher.ofText pattern with
  | .ok p => .ok p
  | .error f => .error (.config (.globPattern pattern f))

end Transclusion.Glob
