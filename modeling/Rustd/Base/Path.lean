import Rustd.Base.Text

/-!
# Paths

An absolute path as the components that its text has between slashes. Empty components and `.` are
left out, `..` stays. `trailing` says that the text ends with a slash or with `/.`, so that the path
can only stand for a directory.
-/

namespace Rustd.Base

open List

abbrev Name := List Char

def dotDot : Name := ['.', '.']

def keptComponent (c : Name) : Bool := c != [] && c != ['.']

def componentsOf (text : List Char) : List Name := (text.splitOn '/').filter keptComponent

/-- The text ends with a slash or with `/.`, or is empty or `.`. -/
def endsInDirectory (text : List Char) : Bool :=
  (text.splitOn '/').getLast?.all (!keptComponent ·)

/-! ### Texts with a slash -/

theorem componentsOf_append_slash (text rest : List Char) :
    componentsOf (text ++ '/' :: rest) = componentsOf text ++ componentsOf rest := by
  rw [componentsOf, splitOn_append_cons_self, filter_append]
  rfl

theorem endsInDirectory_append_slash (text rest : List Char) :
    endsInDirectory (text ++ '/' :: rest) = endsInDirectory rest := by
  rw [endsInDirectory, splitOn_append_cons_self,
    getLast?_append_of_ne_nil _ (splitOn_ne_nil '/' rest)]
  rfl

variable {text : List Char} {name : Name}

theorem endsInDirectory_of_componentsOf (h : componentsOf text = []) :
    endsInDirectory text = true := by
  have hne := splitOn_ne_nil '/' text
  rw [endsInDirectory, getLast?_eq_getLast_of_ne_nil hne, Option.all_some,
    Bool.not_eq_true', Bool.eq_false_iff]
  exact filter_eq_nil_iff.mp h _ (getLast_mem hne)

theorem isInfix_of_mem_componentsOf (h : c ∈ componentsOf text) : c <:+: text := by
  have hpc : c <:+: ['/'].intercalate (text.splitOn '/') := isInfix_intercalate (mem_filter.mp h).1
  rwa [intercalate_splitOn] at hpc

structure Path where
  components : List Name
  trailing : Bool := false
  deriving DecidableEq

namespace Path

def ofText (text : List Char) : Path := ⟨componentsOf text, endsInDirectory text⟩

def join (p : Path) (text : List Char) : Path :=
  if text.head? = some '/' then ofText text
  else ⟨p.components ++ componentsOf text, endsInDirectory text⟩

/-- The last component, unless it is `..`. -/
def fileName (p : Path) : Option Name := p.components.getLast?.filter (· != dotDot)

def parent (p : Path) : Option Path :=
  if p.components = [] then none else some ⟨p.components.dropLast, false⟩

end Path

/-- A file name without its extension, and the extension: what follows the last dot, unless the
dot is the first letter. -/
def splitExtension (name : Name) : Name × Option Name :=
  match rsplitOnce '.' name with
  | some (stem, extension) => if stem = [] then (name, none) else (stem, some extension)
  | none => (name, none)

def Path.withExtension (p : Path) (extension : Name) : Path :=
  match p.fileName with
  | none => p
  | some name => ⟨p.components.dropLast ++ [(splitExtension name).1 ++ '.' :: extension], false⟩

/-- A text that is one component, and neither `.` nor `..`. -/
structure PlainName (name : Name) : Prop where
  noSlash : '/' ∉ name
  kept : keptComponent name = true
  notParent : name ≠ dotDot

theorem PlainName.componentsOf (h : PlainName name) : componentsOf name = [name] := by
  rw [Base.componentsOf, splitOn_eq_singleton h.noSlash, filter_cons_of_pos h.kept, filter_nil]

theorem PlainName.endsInDirectory (h : PlainName name) : endsInDirectory name = false := by
  simp [Base.endsInDirectory, splitOn_eq_singleton h.noSlash, h.kept]

private theorem PlainName.head_ne (h : PlainName name) : name.head? ≠ some '/' :=
  fun hhd => h.noSlash (mem_of_mem_head? hhd)

theorem PlainName.join (h : PlainName name) (p : Path) : p.join name =
    ⟨p.components ++ [name], false⟩ := by
  rw [Path.join, if_neg h.head_ne, h.componentsOf, h.endsInDirectory]

theorem PlainName.fileName (h : PlainName name) (dir : List Name) (t : Bool) :
    Path.fileName ⟨dir ++ [name], t⟩ = some name := by
  simp [Path.fileName, h.notParent]

theorem plainName_of_length (hsls : '/' ∉ name) (hln : 3 ≤ name.length) : PlainName name := by
  have hne : ∀ short : Name, short.length ≤ 2 → name ≠ short := by
    intro short hsh heq
    rw [heq] at hln
    omega
  refine ⟨hsls, ?_, hne dotDot (by decide)⟩
  simp only [keptComponent, Bool.and_eq_true, bne_iff_ne]
  exact ⟨hne [] (by decide), hne ['.'] (by decide)⟩

theorem PlainName.withExtension (h : PlainName name) (hsls : '/' ∉ e)
    (hlo : 2 ≤ e.length) : PlainName ((splitExtension name).1 ++ '.' :: e) := by
  have hstm : '/' ∉ (splitExtension name).1 := by
    unfold splitExtension
    split
    · next stem ext hsl =>
      obtain ⟨-, hname⟩ := rsplitOnce_eq_some.mp hsl
      split
      · exact h.noSlash
      · exact fun hmem => h.noSlash (hname ▸ mem_append_left _ hmem)
    · exact h.noSlash
  refine plainName_of_length ?_ ?_
  · simp only [mem_append, mem_cons, not_or]
    exact ⟨hstm, by decide, hsls⟩
  · rw [length_append, length_cons]
    omega

end Rustd.Base
