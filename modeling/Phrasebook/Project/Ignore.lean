import Phrasebook.Glob
import Phrasebook.Path
import Phrasebook.Text.Space

/-!
Ignore lists. A plain name hides every file and directory of that name; a pattern with a slash or
a wildcard hides the paths that it matches. Whatever lies below something hidden is hidden too.
-/

namespace Phrasebook.Project

open Text

structure IgnoreList where
  names : List String
  globs : List (List Char)
  deriving DecidableEq, Repr

/-- Text with slashes for backslashes and without blanks around it. -/
def slashed (text : List Char) : List Char :=
  (strip text).map fun c => if c == '\\' then '/' else c

def trimSlashes (text : List Char) : List Char := trim (· == '/') text

namespace IgnoreList

def empty : IgnoreList := ⟨[], []⟩

def isWild (c : Char) : Bool := c == '*' || c == '?' || c == '['

/-- Adds one pattern; a blank one says nothing. -/
def add (l : IgnoreList) (raw : List Char) : IgnoreList :=
  let pattern := slashed raw
  let bare := trimSlashes pattern
  if pattern.isEmpty then l
  else if bare.contains '/' || pattern.any isWild then { l with globs := l.globs ++ [bare] }
  else { l with names := l.names.insert (String.ofList bare) }

def ofPatterns (patterns : List (List Char)) : IgnoreList := patterns.foldl add empty

/-- Two stars and a slash in front also match no directory at all. -/
def globAccepts (glob path : List Char) : Bool :=
  Glob.accepts glob path ||
    (['*', '*', '/'].isPrefixOf glob && Glob.accepts (glob.drop 3) path)

/-- Whether a path is hidden, itself or by something that it lies below. -/
def hides (l : IgnoreList) (p : Path) : Bool :=
  p.parts.any l.names.contains ||
    l.globs.any fun glob => p.lineage.any fun q => globAccepts glob q.toString.toList

end IgnoreList

end Phrasebook.Project
