import Phrasebook.Settings.Layers

/-!
Settings that were loaded once are kept, for the eight directories asked for last. Settings that
could not be loaded are not kept.
-/

namespace Phrasebook.Settings

/-- The directory asked for last comes first. -/
abbrev Cache := Table Path Loaded

namespace Cache

def capacity : Nat := 8

def empty : Cache := []

/-- Moves a directory to the front. -/
def touch (c : Cache) (directory : Path) (l : Loaded) : Cache :=
  (directory, l) :: c.filter (·.1 != directory)

/-- The settings for a directory, and the cache after asking for them. -/
def get (c : Cache) (reader : Yaml.Reader) (w : Workspace) (environment : Environment)
    (directory : Path) : Except LoadError Loaded × Cache :=
  match Table.get? directory c with
  | some l => (.ok l, c.touch directory l)
  | none =>
      match load reader w environment directory with
      | .error e => (.error e, c)
      | .ok l => (.ok l, (c.touch directory l).take capacity)

end Cache

end Phrasebook.Settings
