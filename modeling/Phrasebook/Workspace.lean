import Phrasebook.Store

/-!
Where the work is done: a store of files, the directory that relative paths are seen from, and
the home directories that a leading tilde stands for.
-/

namespace Phrasebook

structure Workspace where
  store : Store
  working : Path
  home : Path
  /-- The home directories of users, by their names. -/
  homes : Table String Path

namespace Workspace

/-- A path that begins with the home directory of a user nobody knows. -/
structure UnknownHome where
  name : String
  deriving DecidableEq, Repr

/-- The home directory of a user; without a name, that of the user at work. -/
def homeOf? (w : Workspace) (user : List Char) : Option Path :=
  if user.isEmpty then some w.home else w.homes.get? (String.ofList user)

/-- A leading `~` stands for the home directory, and with a name after it for that of a user. -/
def expandHome (w : Workspace) (p : Path) : Except UnknownHome Path :=
  match p.isAbsolute, p.parts with
  | false, first :: rest =>
      match first.toList with
      | '~' :: user =>
          match w.homeOf? user with
          | some home => .ok ⟨home.root, home.parts ++ rest⟩
          | none => .error ⟨first⟩
      | _ => .ok p
  | _, _ => .ok p

/-- The absolute form of a path, without double dots. -/
def resolve (w : Workspace) (p : Path) : Path := (w.working.join p).normalize

/-- A path that can be looked up at all. -/
def named (p : Path) : Except Store.Fault Path :=
  if p.hasNull then .error .embeddedNull else .ok p

/-- The absolute form of a path. Every name on the way is looked at, those before double dots
too. -/
def locate (w : Workspace) (p : Path) : Except Store.Fault Path :=
  (named (w.working.join p)).map Path.normalize

end Workspace

end Phrasebook
