import Mathlib.Data.List.Induction
import Mathlib.Data.List.TakeWhile
import Transclusion.Ini.Reading

/-!
# What the lines of an INI text are

Whether an indented line goes on with a value depends on the lines above it, so that a line is told by what those are.

* `Ini.Role` : what a line is; `Ini.blocks` : the headers, each with what follows it;
* `Ini.otherBlocks`, `Ini.defaultRoles`, `Ini.openRoles` : the sections, the default one being one wherever it appears
  again;
* `Ini.Role.below`, `Ini.roles` : what a line is below others, and what all lines are;
* `Ini.blocks_append_header` : the last header has what follows it;
* `Ini.IllAt` : an entry that cannot be read.
-/

namespace Transclusion
namespace Ini

inductive Role where
  /-- A blank line or a comment. -/
  | nothing
  | continuation (line : String)
  | header (name : String)
  | entry (line : List Char)
  deriving DecidableEq

namespace Role

def isHeader : Role → Bool
  | header _ => true
  | _ => false

def isEntry : Role → Bool
  | entry _ => true
  | _ => false

end Role

/-! ## Sections -/

/-- The headers in order, each with what follows it up to the next one. -/
def blocks : List Role → List (String × List Role)
  | [] => []
  | .header name :: rest => (name, rest.takeWhile fun r => !r.isHeader) :: blocks rest
  | _ :: rest => blocks rest

/-- The sections but the default one. A header that comes again begins another section. -/
def otherBlocks (rs : List Role) : List (String × List Role) :=
  (blocks rs).filter fun b => b.1 ≠ defaultSection

def defaultRoles (rs : List Role) : List Role :=
  ((blocks rs).filter fun b => b.1 = defaultSection).flatMap (·.2)

def openRoles (rs : List Role) : List Role :=
  match (blocks rs).getLast? with
  | none => []
  | some (name, own) => if name = defaultSection then defaultRoles rs else own

/-! ## Roles -/

def Role.below (above : List Role) (raw : List Char) : Role :=
  let line := Text.trimChars raw
  if line = [] ∨ line.head? = some '#' ∨ line.head? = some ';' then .nothing
  else if (raw.head? = some ' ' ∨ raw.head? = some '\t') ∧ (openRoles above).any isEntry then
    .continuation (String.ofList line)
  else if 2 ≤ line.length ∧ line.head? = some '[' ∧ line.getLast? = some ']' then
    .header (String.ofList (Text.trimChars line.tail.dropLast))
  else .entry line

def rolesFrom (above : List Role) (lines : List (List Char)) : List Role :=
  lines.foldl (fun above raw => above ++ [Role.below above raw]) above

/-- What the lines of a text are, each below those above it. -/
def roles (lines : List (List Char)) : List Role := rolesFrom [] lines

/-! ## Entries -/

/-- The key of an entry, which is before the first sign. -/
def keyOf (line : List Char) : String :=
  Text.toLower (String.ofList (Text.trimChars (line.takeWhile fun c => !endsKey c)))

def valueOf (line : List Char) : String :=
  String.ofList (Text.trimChars (line.dropWhile fun c => !endsKey c).tail)

def Sets (own : List Role) (key : String) : Prop := ∃ line, .entry line ∈ own ∧ keyOf line = key

/-- The line is an entry that cannot be read: it has no sign, or no header is above it. -/
def IllAt (rs : List Role) (i : Nat) (line : List Char) : Prop :=
  rs[i]? = some (.entry line) ∧ (('=' ∉ line ∧ ':' ∉ line) ∨ blocks (rs.take i) = [])

/-! ## Lines one after the other -/

variable {rs own above : List Role} {r : Role} {name : String} {lines : List (List Char)} {raw : List Char} {i : Nat}

@[simp] theorem rolesFrom_nil : rolesFrom above [] = above := rfl

@[simp] theorem rolesFrom_cons :
    rolesFrom above (raw :: lines) = rolesFrom (above ++ [Role.below above raw]) lines := rfl

theorem rolesFrom_append (above : List Role) (lines lines' : List (List Char)) :
    rolesFrom above (lines ++ lines') = rolesFrom (rolesFrom above lines) lines' :=
  List.foldl_append

theorem roles_append (lines lines' : List (List Char)) : roles (lines ++ lines') = rolesFrom (roles lines) lines' :=
  rolesFrom_append [] lines lines'

theorem prefix_rolesFrom (above : List Role) (lines : List (List Char)) : above <+: rolesFrom above lines := by
  induction lines generalizing above with
  | nil => exact List.prefix_refl above
  | cons raw lines ih => exact (List.prefix_append above _).trans (ih _)

/-- Whether a line can be read is known from the lines up to it. -/
theorem illAt_iff_of_isPrefix {rs rs' : List Role} (h : rs <+: rs') (hi : i < rs.length) {line : List Char} :
    IllAt rs' i line ↔ IllAt rs i line := by
  obtain ⟨more, rfl⟩ := h
  unfold IllAt
  rw [List.getElem?_append_left hi, List.take_append_of_le_length (Nat.le_of_lt hi)]

/-! ## The last header -/

theorem blocks_eq_nil (h : ∀ r ∈ rs, r.isHeader = false) : blocks rs = [] := by
  induction rs with
  | nil => rfl
  | cons r rs ih =>
    obtain ⟨hr, hrs⟩ := List.forall_mem_cons.mp h
    cases r with
    | header name => cases hr
    | _ => exact ih hrs

theorem blocks_append_header (rs : List Role) (name : String) (h : ∀ r ∈ own, r.isHeader = false) :
    blocks (rs ++ .header name :: own) = blocks rs ++ [(name, own)] := by
  induction rs with
  | nil =>
    have hall : own.takeWhile (fun r => !r.isHeader) = own :=
      List.takeWhile_eq_self_iff.mpr fun r hr => by simp [h r hr]
    show (name, own.takeWhile fun r => !r.isHeader) :: blocks own = [(name, own)]
    rw [hall, blocks_eq_nil h]
  | cons r rs ih =>
    cases r with
    | header n =>
      have hstop : (rs ++ .header name :: own).takeWhile (fun r => !r.isHeader) =
          rs.takeWhile fun r => !r.isHeader := by
        rw [List.takeWhile_append]
        split
        · rename_i hlength
          have hself : rs.takeWhile (fun r => !r.isHeader) = rs :=
            List.IsPrefix.eq_of_length ( List.takeWhile_prefix _) hlength
          rw [List.takeWhile_cons_of_neg (by simp [Role.isHeader]), List.append_nil, hself]
        · rfl
      show (n, (rs ++ .header name :: own).takeWhile fun r => !r.isHeader) :: blocks (rs ++ .header name :: own) = _
      rw [hstop, ih]
      rfl
    | _ => exact ih

theorem exists_last_header (rs : List Role) :
    (∀ r ∈ rs, r.isHeader = false) ∨
      ∃ before name own, rs = before ++ .header name :: own ∧ ∀ r ∈ own, r.isHeader = false := by
  induction rs using List.reverseRecOn with
  | nil => simp
  | append_singleton rs r ih =>
    by_cases hr : r.isHeader = true
    · cases r with
      | header name => exact .inr ⟨rs, name, [], rfl, by simp⟩
      | _ => cases hr
    · rw [Bool.not_eq_true] at hr
      rcases ih with hall | ⟨before, name, own, rfl, hown⟩
      · left
        simpa [or_imp, forall_and, hr] using hall
      · right
        refine ⟨before, name, own ++ [r], by simp, ?_⟩
        simpa [or_imp, forall_and, hr] using hown

theorem blocks_concat (rs : List Role) (hr : r.isHeader = false) :
    (blocks rs = [] ∧ blocks (rs ++ [r]) = []) ∨
      ∃ before name own, blocks rs = before ++ [(name, own)] ∧ blocks (rs ++ [r]) = before ++ [(name, own ++ [r])] := by
  rcases exists_last_header rs with hall | ⟨before, name, own, rfl, hown⟩
  · left
    refine ⟨blocks_eq_nil hall, blocks_eq_nil ?_⟩
    simpa [or_imp, forall_and, hr] using hall
  · right
    refine ⟨blocks before, name, own, blocks_append_header before name hown, ?_⟩
    rw [List.append_assoc, List.cons_append, blocks_append_header]
    simpa [or_imp, forall_and, hr] using hown

theorem blocks_concat_header (rs : List Role) (name : String) :
    blocks (rs ++ [.header name]) = blocks rs ++ [(name, [])] :=
  blocks_append_header rs name (by simp)

end Ini
end Transclusion
