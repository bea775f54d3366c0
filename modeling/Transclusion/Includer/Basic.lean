import Transclusion.Backend
import Transclusion.Target

/-!
# Includers

* `Loader` : how an included stream becomes a value;
* `Includer` : backend, base directory, loader and tag of the includes of a document;
* `Includer.Options` : settings that are not all given; `Options.build` checks the tag's name and
  fills the rest in.
-/

namespace Transclusion

variable {m : Type → Type}

/-- How the content under a path becomes a value. The first argument reads a document text, given
with its path, and treats the includes in it as the surrounding document does. -/
abbrev Loader (m : Type → Type) :=
  (String → String → Run m Value) → String → Content → Run m Value

/-- The tag of an include, unless another is asked for. -/
def includeTag : Tag := ⟨"inc"⟩

structure Includer (m : Type → Type) where
  backend : Backend m
  baseDir : Option (BaseDir m) := none
  /-- Resolve includes while reading; otherwise they stay as tagged nodes. -/
  autoload : Bool := true
  /-- Included streams are document texts if this is not given. -/
  loader : Option (Loader m) := none
  tag : Tag := includeTag
  /-- How deep includes may be nested. -/
  nesting : Nat := 2000

namespace Includer

def isInclude (I : Includer m) (t : Tag) : Bool := t.same I.tag

def withAutoload (I : Includer m) (autoload : Bool) : Includer m := { I with autoload := autoload }

def withBaseDir (I : Includer m) (base : BaseDir m) : Includer m := { I with baseDir := some base }

/-- The directory that the next target is joined to. -/
def currentBase [Monad m] (I : Includer m) : m (Option String) :=
  match I.baseDir with
  | some base => some <$> base.current
  | none => pure none

/-! ## Settings -/

structure Options (m : Type → Type) where
  backend : Backend m
  baseDir : Option (BaseDir m) := none
  autoload : Option Bool := none
  loader : Option (Loader m) := none
  /-- The tag's name, with or without its mark. -/
  tag : Option String := none

/-- A tag by its name, which must not be empty or hold blanks. -/
def tagOfName (name : String) : Except Fault Tag :=
  let bare := match name.toList with
    | '!' :: rest => rest
    | cs => cs
  if bare.isEmpty || bare.any Text.isBlank then .error (.config (.tagName name))
  else .ok ⟨String.ofList bare⟩

def Options.build (o : Options m) : Except Fault (Includer m) := do
  let tag ← match o.tag with
    | some name => tagOfName name
    | none => pure includeTag
  return { backend := o.backend, baseDir := o.baseDir, autoload := o.autoload.getD true,
           loader := o.loader, tag := tag }

def Options.ofIncluder (I : Includer m) : Options m :=
  { backend := I.backend, baseDir := I.baseDir, autoload := some I.autoload, loader := I.loader,
    tag := some I.tag.text }

end Includer
end Transclusion
