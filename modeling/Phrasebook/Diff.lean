/-!
Differences between two lists of lines. The longest block of lines that both have in common is
kept, then the longest to its left and to its right, and so on; what lies between kept blocks was
replaced, taken out or put in.

In a list of two hundred lines or more, lines that come too often do not begin a common block,
though they may lengthen one.
-/

namespace Phrasebook.Diff

abbrev Line := List Char

abbrev Lines := Array Line

/-- `size` lines from `left` on in one list and from `right` on in the other are the same. -/
structure Block where
  left : Nat
  right : Nat
  size : Nat
  deriving DecidableEq, Repr

/-- The stretches of two lists to compare. -/
structure Window where
  leftStart : Nat
  leftStop : Nat
  rightStart : Nat
  rightStop : Nat
  deriving DecidableEq, Repr

/-! ### Common blocks -/

/-- Where each line of a list comes, first places first. -/
abbrev Places := List (Line × List Nat)

def addPlace (line : Line) (n : Nat) : Places → Places
  | [] => [(line, [n])]
  | (l, ns) :: rest => if l = line then (l, ns ++ [n]) :: rest else (l, ns) :: addPlace line n rest

/-- The places of lines that are not too common to begin a block. -/
def places (lines : List Line) : Places :=
  let all := (lines.foldl (fun (ps, n) line => (addPlace line n ps, n + 1))
    (([] : Places), 0)).1
  if 200 ≤ lines.length then all.filter fun p => p.2.length ≤ lines.length / 100 + 1 else all

/-- The length of the common block that ends at each place of a line. -/
abbrev Runs := List (Nat × Nat)

/-- The runs that end at the next line of the first list, and the best block so far. -/
def extendRuns (w : Window) (left : Nat) (before : Runs) : List Nat → Block → Runs × Block
  | [], best => ([], best)
  | right :: rest, best =>
      if right < w.rightStart || w.rightStop ≤ right then extendRuns w left before rest best
      else
        let size := (if right == 0 then 0 else (before.lookup (right - 1)).getD 0) + 1
        let best := if best.size < size then ⟨left + 1 - size, right + 1 - size, size⟩ else best
        let (runs, best) := extendRuns w left before rest best
        ((right, size) :: runs, best)

def longestFrom (w : Window) (ps : Places) (a : Lines) : Nat → Nat → Runs → Block → Block
  | 0, _, _, best => best
  | count + 1, left, runs, best =>
      let (runs, best) := extendRuns w left runs ((ps.lookup (a.getD left [])).getD []) best
      longestFrom w ps a count (left + 1) runs best

/-- Lengthens a block to the left. -/
def growLeft (w : Window) (a b : Lines) : Nat → Block → Block
  | 0, block => block
  | fuel + 1, block =>
      if w.leftStart < block.left && w.rightStart < block.right &&
          a.getD (block.left - 1) [] == b.getD (block.right - 1) [] then
        growLeft w a b fuel ⟨block.left - 1, block.right - 1, block.size + 1⟩
      else block

/-- Lengthens a block to the right. -/
def growRight (w : Window) (a b : Lines) : Nat → Block → Block
  | 0, block => block
  | fuel + 1, block =>
      if block.left + block.size < w.leftStop && block.right + block.size < w.rightStop &&
          a.getD (block.left + block.size) [] == b.getD (block.right + block.size) [] then
        growRight w a b fuel ⟨block.left, block.right, block.size + 1⟩
      else block

/-- The longest common block in a window, the first of several. -/
def longest (w : Window) (ps : Places) (a b : Lines) : Block :=
  let found :=
    longestFrom w ps a (w.leftStop - w.leftStart) w.leftStart [] ⟨w.leftStart, w.rightStart, 0⟩
  growRight w a b a.size (growLeft w a b a.size found)

/-- The common blocks in a window, in order. -/
def blocksIn (ps : Places) (a b : Lines) : Nat → Window → List Block
  | 0, _ => []
  | fuel + 1, w =>
      let block := longest w ps a b
      if block.size == 0 then []
      else
        let left : Window := ⟨w.leftStart, block.left, w.rightStart, block.right⟩
        let right : Window :=
          ⟨block.left + block.size, w.leftStop, block.right + block.size, w.rightStop⟩
        blocksIn ps a b fuel left ++ block :: blocksIn ps a b fuel right

/-- Joins blocks that follow each other without a gap. -/
def joinBlocks : List Block → List Block
  | [] => []
  | block :: rest =>
      match joinBlocks rest with
      | next :: more =>
          if block.left + block.size == next.left && block.right + block.size == next.right then
            ⟨block.left, block.right, block.size + next.size⟩ :: more
          else block :: next :: more
      | [] => [block]

def blocks (a b : List Line) : List Block :=
  joinBlocks (blocksIn (places b) a.toArray b.toArray (a.length + 1)
    ⟨0, a.length, 0, b.length⟩)

/-! ### Steps -/

inductive Change where
  | keep
  | replace
  | remove
  | insert
  deriving DecidableEq, Repr

/-- What happens to a stretch of one list to make a stretch of the other. -/
structure Step where
  change : Change
  leftStart : Nat
  leftStop : Nat
  rightStart : Nat
  rightStop : Nat
  deriving DecidableEq, Repr

/-- The change between two kept blocks, if there is any. -/
def gap (leftStart leftStop rightStart rightStop : Nat) : List Step :=
  if leftStart < leftStop && rightStart < rightStop then
    [⟨.replace, leftStart, leftStop, rightStart, rightStop⟩]
  else if leftStart < leftStop then [⟨.remove, leftStart, leftStop, rightStart, rightStop⟩]
  else if rightStart < rightStop then [⟨.insert, leftStart, leftStop, rightStart, rightStop⟩]
  else []

def stepsFrom (leftLength rightLength left right : Nat) : List Block → List Step
  | [] => gap left leftLength right rightLength
  | block :: rest =>
      let leftStop := block.left + block.size
      let rightStop := block.right + block.size
      gap left block.left right block.right ++
        ⟨.keep, block.left, leftStop, block.right, rightStop⟩ ::
          stepsFrom leftLength rightLength leftStop rightStop rest

/-- The steps from one list to the other. -/
def steps (a b : List Line) : List Step := stepsFrom a.length b.length 0 0 (blocks a b)

/-! ### Groups -/

/-- Leaves the last `n` lines of what is kept in front of the first change. -/
def trimFirst (n : Nat) : List Step → List Step
  | ⟨.keep, i1, i2, j1, j2⟩ :: rest => ⟨.keep, max i1 (i2 - n), i2, max j1 (j2 - n), j2⟩ :: rest
  | l => l

/-- Leaves the first `n` lines of what is kept after the last change. -/
def trimLast (n : Nat) (l : List Step) : List Step :=
  match l.getLast? with
  | some ⟨.keep, i1, i2, j1, j2⟩ =>
      l.dropLast ++ [⟨.keep, i1, min i2 (i1 + n), j1, min j2 (j1 + n)⟩]
  | _ => l

/-- Cuts the steps where more than `2 * n` lines are kept. -/
def groupFrom (n : Nat) (group : List Step) : List Step → List (List Step)
  | [] => [group]
  | ⟨.keep, i1, i2, j1, j2⟩ :: rest =>
      if 2 * n < i2 - i1 then
        (group ++ [⟨.keep, i1, min i2 (i1 + n), j1, min j2 (j1 + n)⟩]) ::
          groupFrom n [⟨.keep, max i1 (i2 - n), i2, max j1 (j2 - n), j2⟩] rest
      else groupFrom n (group ++ [⟨.keep, i1, i2, j1, j2⟩]) rest
  | step :: rest => groupFrom n (group ++ [step]) rest

/-- Changes that are close to each other, with up to `n` kept lines around them. -/
def groups (n : Nat) (l : List Step) : List (List Step) :=
  (groupFrom n [] (trimLast n (trimFirst n l))).filter fun g => g.any (·.change != .keep)

/-! ### Text -/

/-- The lines of a stretch by number and count. -/
def range (start stop : Nat) : String :=
  if stop - start == 1 then toString (start + 1)
  else if stop ≤ start then s!"{start},0"
  else s!"{start + 1},{stop - start}"

def slice (lines : List Line) (start stop : Nat) : List Line :=
  (lines.drop start).take (stop - start)

def marked (mark : Char) (lines : List Line) : List Char := lines.flatMap (mark :: ·)

def stepText (a b : List Line) (s : Step) : List Char :=
  let old := slice a s.leftStart s.leftStop
  match s.change with
  | .keep => marked ' ' old
  | .replace => marked '-' old ++ marked '+' (slice b s.rightStart s.rightStop)
  | .remove => marked '-' old
  | .insert => marked '+' (slice b s.rightStart s.rightStop)

def groupText (a b : List Line) (group : List Step) : List Char :=
  match group.head?, group.getLast? with
  | some first, some last =>
      let old := range first.leftStart last.leftStop
      let new := range first.rightStart last.rightStop
      s!"@@ -{old} +{new} @@\n".toList ++ group.flatMap (stepText a b)
  | _, _ => []

/-- The differences between two lists of lines, with three kept lines around each; nothing if
there are none. -/
def unified (name : String) (a b : List Line) : List Char :=
  match groups 3 (steps a b) with
  | [] => []
  | gs => s!"--- {name}\n+++ {name}\n".toList ++ gs.flatMap (groupText a b)

end Phrasebook.Diff
