import Transclusion.Http.Links
import Transclusion.Run

/-!
# Listing by following links

* `Crawl.directories`, `Crawl.files` : the links of a page that stay below a root;
* `Crawl.explore` : the pages below a page, each of them visited once;
* `Crawl.crawl` : the files below a root, at most so many levels deep.
-/

namespace Transclusion
namespace Crawl

/-- What is known of the pages below a root. -/
structure Known where
  /-- The pages that were visited, the last one first. -/
  visited : List String
  /-- The files that pages link to. -/
  files : List String

/-- A URL is below the root and is not the page itself. -/
def isBelow (root page u : Url) : Bool :=
  u.text != page.text && root.text.toList.isPrefixOf u.text.toList

def isDirectory (u : Url) : Bool := u.path.toList.getLast? == some '/'

/-- The links of a page that lead to something else below the root. -/
def targets (root page : Url) (body : String) : List Url :=
  ((Page.links body).filterMap (Page.follow? page)).filter (isBelow root page)

def directories (root page : Url) (body : String) : List Url :=
  (targets root page body).filter isDirectory

def files (root page : Url) (body : String) : List String :=
  ((targets root page body).filter fun u => !isDirectory u).map Url.text

variable {m : Type → Type} [Monad m]

/-- Everything that is linked to from a page and from the directories below it, `left` levels
deep. The directories of a page are visited from the last to the first. -/
def explore (fetch : Url → Run m String) (root : Url) :
    (left : Nat) → (page : Url) → (body : String) → Known → Run m Known
  | 0, page, body, known => return ⟨known.visited, known.files ++ files root page body⟩
  | left + 1, page, body, known =>
    (directories root page body).reverse.foldlM
      (fun known u =>
        if known.visited.contains u.text then pure known
        else do
          let body ← fetch u
          explore fetch root left u body ⟨u.text :: known.visited, known.files⟩)
      ⟨known.visited, known.files ++ files root page body⟩

/-- Texts in ascending order, each of them once. -/
def ascending (l : List String) : List String := (l.mergeSort fun a b => a ≤ b).eraseReps

/-- The files below a root at most `depth` levels deep. There are none if the root is missing. -/
def crawl (fetch : Url → Run m String) (root : Url) (depth : Nat) : Run m (List String) := do
  let first ← (some <$> fetch root).orElseOn fun f => if f.isNotFound then pure none else Run.raise f
  match first with
  | none => return []
  | some body => return ascending (← explore fetch root (depth - 1) root body ⟨[root.text], []⟩).files

end Crawl
end Transclusion
