import Phrasebook.Proofs.EndedLine

/-!
Reading a difference back. A text is cut behind its line feeds. After two lines that name the files,
a line that begins with `@` opens a hunk and says where it stands; a line that begins with a blank,
`-` or `+` belongs to the hunk above it. Hunks that are written out are read back, if every line of
theirs but the last ends in a line feed.
-/

namespace Phrasebook.Text

open Diff (EndsInFeed Ended)

/-- The lines of a text, cut behind each line feed and nowhere else. -/
def fedLines : List Char → List (List Char)
  | [] => []
  | c :: rest =>
      if c = '\n' then [c] :: fedLines rest
      else match fedLines rest with
        | [] => [[c]]
        | line :: lines => (c :: line) :: lines

def IsOneLine (l : List Char) : Prop := l ≠ [] ∧ '\n' ∉ l.dropLast

theorem IsOneLine.cons {l : List Char} (h : IsOneLine l) {c : Char} (hc : c ≠ '\n') :
    IsOneLine (c :: l) := by
  refine ⟨by simp, ?_⟩
  rw [List.dropLast_cons_of_ne_nil h.1]
  simpa [hc.symm] using h.2

theorem IsOneLine.append {l l' : List Char} (h : IsOneLine l) (hfeed : ¬ EndsInFeed l)
    (h' : IsOneLine l') : IsOneLine (l ++ l') := by
  obtain ⟨init, c, rfl⟩ : ∃ init c, l = init ++ [c] :=
    ⟨l.dropLast, l.getLast h.1, (List.dropLast_concat_getLast h.1).symm⟩
  have hc : '\n' ≠ c := fun hc => hfeed (by rw [EndsInFeed, List.getLast?_concat, hc])
  have hinit : '\n' ∉ init := by simpa using h.2
  refine ⟨by simp, ?_⟩
  rw [List.dropLast_append_of_ne_nil h'.1]
  simpa [hc, hinit] using h'.2

theorem flatten_fedLines (text : List Char) : (fedLines text).flatten = text := by
  fun_induction fedLines text with
  | case1 => rfl
  | case2 rest ih => simp [ih]
  | case3 c rest _ hnil ih =>
    rw [hnil] at ih
    simp [← ih]
  | case4 c rest _ line lines hcons ih =>
    rw [hcons] at ih
    simp [← ih]

theorem isOneLine_of_mem_fedLines {text : List Char} : ∀ l ∈ fedLines text, IsOneLine l := by
  fun_induction fedLines text with
  | case1 => simp
  | case2 rest ih => simpa [IsOneLine] using ih
  | case3 c rest hc hnil ih => simp [IsOneLine]
  | case4 c rest hc line lines hcons ih =>
    rw [hcons] at ih
    intro l hl
    rcases List.mem_cons.1 hl with rfl | hl
    · exact (ih line (by simp)).cons hc
    · exact ih l (List.mem_cons_of_mem _ hl)

theorem ended_fedLines (text : List Char) : Ended (fedLines text) := by
  fun_induction fedLines text with
  | case1 => exact List.Pairwise.nil
  | case2 rest ih => exact List.pairwise_cons.2 ⟨fun _ _ => rfl, ih⟩
  | case3 c rest hc hnil ih => exact List.pairwise_singleton _ _
  | case4 c rest hc line lines hcons ih =>
    rw [hcons] at ih
    obtain ⟨hline, hlines⟩ := List.pairwise_cons.1 ih
    exact List.pairwise_cons.2 ⟨fun l hl => (hline l hl).cons c, hlines⟩

theorem fedLines_append {line : List Char} (hline : IsOneLine line) (hfeed : EndsInFeed line)
    (rest : List Char) : fedLines (line ++ rest) = line :: fedLines rest := by
  induction line with
  | nil => exact absurd rfl hline.1
  | cons c line ih =>
    rw [List.cons_append, fedLines]
    by_cases hnil : line = []
    · subst hnil
      obtain rfl : c = '\n' := by simpa [EndsInFeed] using hfeed
      rw [if_pos rfl, List.nil_append]
    · obtain ⟨hc, hrest⟩ : '\n' ≠ c ∧ '\n' ∉ line.dropLast := by
        simpa [List.dropLast_cons_of_ne_nil hnil] using hline.2
      rw [if_neg hc.symm, ih ⟨hnil, hrest⟩ (hfeed.of_cons hnil)]

theorem fedLines_of_isOneLine {line : List Char} (hline : IsOneLine line) :
    fedLines line = [line] := by
  induction line with
  | nil => exact absurd rfl hline.1
  | cons c line ih =>
    by_cases hnil : line = []
    · subst hnil
      simp [fedLines]
    · obtain ⟨hc, hrest⟩ : '\n' ≠ c ∧ '\n' ∉ line.dropLast := by
        simpa [List.dropLast_cons_of_ne_nil hnil] using hline.2
      rw [fedLines, if_neg hc.symm, ih ⟨hnil, hrest⟩]

theorem fedLines_flatten {lines : List (List Char)} (hlines : ∀ l ∈ lines, IsOneLine l)
    (hended : Ended lines) : fedLines lines.flatten = lines := by
  induction lines with
  | nil => rfl
  | cons line rest ih =>
    have hline := hlines line (by simp)
    obtain ⟨hfeed, hrest⟩ := List.pairwise_cons.1 hended
    rw [List.flatten_cons]
    cases rest with
    | nil => rw [List.flatten_nil, List.append_nil, fedLines_of_isOneLine hline]
    | cons next rest =>
      rw [fedLines_append hline (hfeed next (by simp)),
        ih (fun l hl => hlines l (List.mem_cons_of_mem _ hl)) hrest]

end Phrasebook.Text

namespace Phrasebook.Diff

open Text (fedLines IsOneLine)

/-! ### The reader -/

/-- A part of a difference: how many lines stand in front of it in both lists, how many it covers
there, and its lines with their marks. -/
structure Hunk where
  left : Nat
  leftCount : Nat
  right : Nat
  rightCount : Nat
  body : List Line
  deriving DecidableEq, Repr

def readNumber (s : List Char) : Option Nat :=
  if s ≠ [] ∧ s.all Char.isDigit then some (Nat.ofDigitChars 10 s 0) else none

/-- Lines by number and count, as how many stand in front of them and how many they are. A number
alone is that of one line; no lines are numbered by the line in front. -/
def readRange (s : List Char) : Option (Nat × Nat) :=
  match (s.splitOn ',').map readNumber with
  | [some n] => some (n - 1, 1)
  | [some n, some 0] => some (n, 0)
  | [some n, some count] => some (n - 1, count)
  | _ => none

def readHeader (line : Line) : Option ((Nat × Nat) × (Nat × Nat)) :=
  match line.splitOn ' ' with
  | [['@', '@'], '-' :: old, '+' :: new, ['@', '@', '\n']] =>
      match readRange old, readRange new with
      | some old, some new => some (old, new)
      | _, _ => none
  | _ => none

def collect : List Line → Option (List Line × List Hunk)
  | [] => some ([], [])
  | line :: rest =>
      match collect rest, line.head? with
      | some (body, hunks), some '@' =>
          (readHeader line).map fun (old, new) => ([], ⟨old.1, old.2, new.1, new.2, body⟩ :: hunks)
      | some (body, hunks), some ' ' => some (line :: body, hunks)
      | some (body, hunks), some '-' => some (line :: body, hunks)
      | some (body, hunks), some '+' => some (line :: body, hunks)
      | _, _ => none

def readHunks (text : List Char) : Option (List Hunk) :=
  match fedLines text with
  | [] => some []
  | old :: new :: rest =>
      if "--- ".toList.isPrefixOf old && "+++ ".toList.isPrefixOf new then
        match collect rest with
        | some ([], hunks) => some hunks
        | _ => none
      else none
  | _ => none

def without (mark : Char) (body : List Line) : List Line :=
  (body.filter (·.head? != some mark)).map List.tail

def Hunk.old (h : Hunk) : List Line := without '+' h.body

def Hunk.new (h : Hunk) : List Line := without '-' h.body

/-- The hunk stands where it says, `i` lines of the one list and `j` of the other being done with,
has as many lines as it says, and finds the lines that it takes. -/
def Hunk.Applies (i j : Nat) (lines : List Line) (h : Hunk) : Prop :=
  i ≤ h.left ∧ h.left - i ≤ lines.length ∧ h.right = j + (h.left - i) ∧
    h.old.length = h.leftCount ∧ h.new.length = h.rightCount ∧
      h.old <+: lines.drop (h.left - i)

instance (i j : Nat) (lines : List Line) (h : Hunk) : Decidable (h.Applies i j lines) :=
  inferInstanceAs (Decidable (_ ∧ _))

def patch : Nat → Nat → List Hunk → List Line → Option (List Line)
  | _, _, [], lines => some lines
  | i, j, h :: hs, lines =>
      if h.Applies i j lines then
        (patch (h.left + h.leftCount) (h.right + h.rightCount) hs
          (lines.drop (h.left - i + h.leftCount))).map (lines.take (h.left - i) ++ h.new ++ ·)
      else none

/-- The text that a difference makes of another text, if it is a difference and fits. -/
def applyTo (text source : List Char) : Option (List Char) :=
  (readHunks text).bind fun hs => (patch 0 0 hs (fedLines source)).map List.flatten

/-! ### Reading what is written -/

theorem toString_text (s : String) : toString s = s := rfl

theorem isDigit_of_mem_digits {n : Nat} {c : Char} (h : c ∈ Nat.toDigits 10 n) : c.isDigit :=
  Nat.isDigit_of_mem_toDigits (by omega) (by omega) h

theorem readNumber_digits (n : Nat) : readNumber (Nat.toDigits 10 n) = some n := by
  have hall : (Nat.toDigits 10 n).all Char.isDigit :=
    List.all_eq_true.2 fun c hc => isDigit_of_mem_digits hc
  rw [readNumber, if_pos ⟨Nat.toDigits_ne_nil, hall⟩, Nat.ofDigitChars_ten_toDigits]

theorem splitOn_numbers {numbers : List Nat} (h : numbers ≠ []) :
    ([','].intercalate (numbers.map (Nat.toDigits 10))).splitOn ',' =
      numbers.map (Nat.toDigits 10) := by
  refine List.splitOn_intercalate ',' ?_ (by simpa using h)
  intro l hl hcomma
  obtain ⟨n, -, rfl⟩ := List.mem_map.1 hl
  exact absurd (isDigit_of_mem_digits hcomma) (by decide)

/-- A range is written as one number or two. -/
theorem range_eq (start count : Nat) :
    (range start (start + count)).toList = [','].intercalate ((if count = 1 then [start + 1]
      else if count = 0 then [start, 0] else [start + 1, count]).map (Nat.toDigits 10)) := by
  rw [range, Nat.add_sub_cancel_left]
  by_cases hone : count = 1
  · subst hone
    simp
  · by_cases hzero : count = 0
    · subst hzero
      simp [toString_text, List.intercalate]
    · have hmore : ¬ start + count ≤ start := by omega
      simp [hone, hzero, hmore, toString_text, List.intercalate]

theorem readRange_range (start count : Nat) :
    readRange (range start (start + count)).toList = some (start, count) := by
  rw [readRange, range_eq]
  by_cases hone : count = 1
  · rw [if_pos hone, splitOn_numbers (by simp)]
    simp [readNumber_digits, hone]
  · rw [if_neg hone]
    by_cases hzero : count = 0
    · rw [if_pos hzero, splitOn_numbers (by simp), hzero]
      simp only [List.map_cons, List.map_nil, readNumber_digits]
    · rw [if_neg hzero, splitOn_numbers (by simp)]
      obtain ⟨m, rfl⟩ : ∃ m, count = m + 1 := ⟨count - 1, by omega⟩
      simp [readNumber_digits]

theorem mem_range {start count : Nat} {c : Char} (h : c ∈ (range start (start + count)).toList) :
    c.isDigit ∨ c = ',' := by
  have hnumbers (l : List Nat) (hc : c ∈ [','].intercalate (l.map (Nat.toDigits 10))) :
      c.isDigit ∨ c = ',' := by
    induction l with
    | nil => simp at hc
    | cons n rest ih =>
      cases rest with
      | nil => exact .inl (isDigit_of_mem_digits (by simpa using hc))
      | cons m rest =>
        rw [List.map_cons, List.map_cons, List.intercalate_cons_cons, ← List.map_cons] at hc
        simp only [List.mem_append, List.mem_singleton] at hc
        rcases hc with (hc | hc) | hc
        · exact .inl (isDigit_of_mem_digits hc)
        · exact .inr hc
        · exact ih hc
  rw [range_eq] at h
  exact hnumbers _ h

theorem not_mem_range {c : Char} (hdigit : c.isDigit = false) (hcomma : c ≠ ',')
    (start count : Nat) : c ∉ (range start (start + count)).toList := by
  intro hmem
  rcases mem_range hmem with hc | hc
  · rw [hc] at hdigit
    cases hdigit
  · exact hcomma hc

def Hunk.header (h : Hunk) : Line :=
  let old := range h.left (h.left + h.leftCount)
  let new := range h.right (h.right + h.rightCount)
  s!"@@ -{old} +{new} @@\n".toList

def Hunk.lines (h : Hunk) : List Line := h.header :: h.body

theorem Hunk.header_eq (h : Hunk) :
    h.header = [' '].intercalate [['@', '@'], '-' :: (range h.left (h.left + h.leftCount)).toList,
      '+' :: (range h.right (h.right + h.rightCount)).toList, ['@', '@', '\n']] := by
  simp [Hunk.header, toString_text, List.intercalate]

theorem Hunk.readHeader_header (h : Hunk) :
    readHeader h.header = some ((h.left, h.leftCount), (h.right, h.rightCount)) := by
  have hblank := @not_mem_range ' ' (by decide) (by decide)
  rw [readHeader, h.header_eq, List.splitOn_intercalate ' ' (by simp [hblank]) (by simp)]
  simp only [readRange_range]

theorem Hunk.header_concat (h : Hunk) : ∃ l, '\n' ∉ l ∧ h.header = l ++ ['\n'] := by
  have hfeed := @not_mem_range '\n' (by decide) (by decide)
  refine ⟨['@', '@', ' ', '-'] ++ (range h.left (h.left + h.leftCount)).toList ++ [' ', '+'] ++
    (range h.right (h.right + h.rightCount)).toList ++ [' ', '@', '@'], by simp [hfeed], ?_⟩
  simp [Hunk.header, toString_text]

theorem Hunk.endsInFeed_header (h : Hunk) : EndsInFeed h.header := by
  obtain ⟨l, -, hl⟩ := h.header_concat
  rw [EndsInFeed, hl, List.getLast?_concat]

theorem Hunk.isOneLine_header (h : Hunk) : IsOneLine h.header := by
  obtain ⟨l, hfeed, hl⟩ := h.header_concat
  rw [IsOneLine, hl, List.dropLast_concat]
  exact ⟨by simp, hfeed⟩

def IsMarked (l : Line) : Prop :=
  l.head? = some ' ' ∨ l.head? = some '-' ∨ l.head? = some '+'

theorem collect_append {body : List Line} (hbody : ∀ l ∈ body, IsMarked l) {rest front : List Line}
    {hs : List Hunk} (hrest : collect rest = some (front, hs)) :
    collect (body ++ rest) = some (body ++ front, hs) := by
  induction body with
  | nil => exact hrest
  | cons l body ih =>
    have hcollect := ih fun x hx => hbody x (List.mem_cons_of_mem _ hx)
    rw [List.cons_append, collect, hcollect]
    rcases hbody l (by simp) with hl | hl | hl
    · rw [hl]
      rfl
    · rw [hl]
      rfl
    · rw [hl]
      rfl

theorem collect_lines {hs : List Hunk} (hbody : ∀ h ∈ hs, ∀ l ∈ h.body, IsMarked l) :
    collect (hs.flatMap Hunk.lines) = some ([], hs) := by
  induction hs with
  | nil => rfl
  | cons h hs ih =>
    have hrest := ih fun x hx => hbody x (List.mem_cons_of_mem _ hx)
    have hcollect := collect_append (hbody h (by simp)) hrest
    have hhead : h.header.head? = some '@' := by simp [Hunk.header_eq, List.intercalate]
    rw [List.flatMap_cons, Hunk.lines, List.cons_append, collect, hcollect, hhead,
      h.readHeader_header, List.append_nil]
    rfl

/-- Every hunk has lines, so what stands in front of an opening line stands in front of one of
them. -/
theorem ended_lines {hs : List Hunk} (hne : ∀ h ∈ hs, h.body ≠ [])
    (hended : Ended (hs.flatMap Hunk.body)) : Ended (hs.flatMap Hunk.lines) := by
  induction hs with
  | nil => exact List.Pairwise.nil
  | cons h hs ih =>
    rw [List.flatMap_cons] at hended ⊢
    have hrest : Ended (hs.flatMap Hunk.body) := hended.sublist (List.sublist_append_right _ _)
    have hbody : Ended h.body := hended.sublist (List.sublist_append_left _ _)
    have hlines := ih (fun x hx => hne x (List.mem_cons_of_mem _ hx)) hrest
    have hhead : Ended h.lines := List.pairwise_cons.2 ⟨fun _ _ => h.endsInFeed_header, hbody⟩
    refine hhead.append hlines fun hfollows => ?_
    have hbodies : hs.flatMap Hunk.body ≠ [] := by
      obtain ⟨l, hl⟩ := List.exists_mem_of_ne_nil _ hfollows
      obtain ⟨next, hnext, -⟩ := List.mem_flatMap.1 hl
      obtain ⟨x, hx⟩ := List.exists_mem_of_ne_nil _ (hne next (List.mem_cons_of_mem _ hnext))
      exact List.ne_nil_of_mem (List.mem_flatMap.2 ⟨next, hnext, hx⟩)
    intro x hx
    rcases List.mem_cons.1 hx with rfl | hx
    · exact h.endsInFeed_header
    · exact hended.left_of_append hbodies x hx

def written (name : String) (hs : List Hunk) : List Char :=
  s!"--- {name}\n+++ {name}\n".toList ++ (hs.flatMap Hunk.lines).flatten

theorem readHunks_written {name : String} (hname : '\n' ∉ name.toList) {hs : List Hunk}
    (hbody : ∀ h ∈ hs, ∀ l ∈ h.body, IsMarked l ∧ IsOneLine l) (hne : ∀ h ∈ hs, h.body ≠ [])
    (hended : Ended (hs.flatMap Hunk.body)) : readHunks (written name hs) = some hs := by
  let top (mark : List Char) : Line := mark ++ name.toList ++ ['\n']
  have htext : written name hs = top ['-', '-', '-', ' '] ++
      (top ['+', '+', '+', ' '] ++ (hs.flatMap Hunk.lines).flatten) := by
    simp [written, top, toString_text]
  have hfeed (mark : List Char) : EndsInFeed (top mark) := List.getLast?_concat
  have hone {mark : List Char} (hmark : '\n' ∉ mark) : IsOneLine (top mark) := by
    refine ⟨by simp [top], ?_⟩
    rw [List.dropLast_concat]
    simp [hmark, hname]
  have hlines : fedLines (hs.flatMap Hunk.lines).flatten = hs.flatMap Hunk.lines := by
    refine Text.fedLines_flatten ?_ (ended_lines hne hended)
    intro l hl
    obtain ⟨h, hh, hl⟩ := List.mem_flatMap.1 hl
    rcases List.mem_cons.1 hl with rfl | hl
    · exact h.isOneLine_header
    · exact (hbody h hh l hl).2
  rw [readHunks, htext, Text.fedLines_append (hone (by decide)) (hfeed _),
    Text.fedLines_append (hone (by decide)) (hfeed _), hlines]
  simp only [collect_lines fun h hh l hl => (hbody h hh l hl).1]
  rfl

end Phrasebook.Diff
