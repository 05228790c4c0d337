import Mathlib.Data.List.Lex
import Mathlib.Data.List.Sort
import Mathlib.Data.String.Basic
import Phrasebook.Project.Files
import Phrasebook.Proofs.FileStore

/-!
The files of a project. The walk turns back at ignored directories, and that loses nothing, since
whatever lies below something ignored is ignored too. So the files that it finds are told by a
filter: by where they are, by their names and by the ignore list. Being in order and each once, they
depend on nothing else, be it the order of the lists or directories that are named twice.
-/

namespace Phrasebook

open Text

/-! ### Paths -/

namespace Path

theorem mem_lineage {p q : Path} :
    q ∈ p.lineage ↔
      ∃ n ≤ p.parts.length, (p.isAbsolute = true ∨ 0 < n) ∧ q = ⟨p.root, p.parts.take n⟩ := by
  unfold lineage
  simp only
  split
  · next habsolute =>
    simp only [List.mem_map, List.mem_range, habsolute, true_or, true_and]
    constructor
    · rintro ⟨n, hn, rfl⟩
      exact ⟨n, Nat.le_of_lt_succ hn, rfl⟩
    · rintro ⟨n, hn, rfl⟩
      exact ⟨n, Nat.lt_succ_of_le hn, rfl⟩
  · next habsolute =>
    rw [List.range_succ_eq_map, List.map_cons, List.tail_cons]
    simp only [List.mem_map, List.mem_range, habsolute, Bool.false_eq_true, false_or]
    constructor
    · rintro ⟨m, ⟨n, hn, rfl⟩, rfl⟩
      exact ⟨n + 1, hn, Nat.succ_pos n, rfl⟩
    · rintro ⟨n, hn, hpos, rfl⟩
      obtain ⟨n, rfl⟩ := Nat.exists_eq_succ_of_ne_zero (Nat.ne_of_gt hpos)
      exact ⟨n + 1, ⟨n, hn, rfl⟩, rfl⟩

/-- What is above a path is above all that lies below it. -/
theorem lineage_subset {p q : Path} (hroot : p.root = q.root) (h : p.parts <+: q.parts) :
    p.lineage ⊆ q.lineage := by
  intro r hr
  obtain ⟨n, hn, hpos, rfl⟩ := mem_lineage.1 hr
  obtain ⟨rest, hrest⟩ := h
  refine mem_lineage.2 ⟨n, ?_, ?_, ?_⟩
  · rw [← hrest, List.length_append]
    exact Nat.le_add_right_of_le hn
  · rwa [isAbsolute, ← hroot]
  · rw [hroot, ← hrest, List.take_append_of_le_length hn]

def Contains (p q : Path) : Prop := p.root = q.root ∧ p.parts <+: q.parts

instance (p q : Path) : Decidable (p.Contains q) :=
  inferInstanceAs (Decidable (p.root = q.root ∧ p.parts <+: q.parts))

theorem Contains.trans {p q r : Path} (hpq : p.Contains q) (hqr : q.Contains r) : p.Contains r :=
  ⟨hpq.1.trans hqr.1, hpq.2.trans hqr.2⟩

theorem relativeTo?_eq_some {base p : Path} {parts : List String} :
    base.relativeTo? p = some parts ↔ p = ⟨base.root, base.parts ++ parts⟩ := by
  obtain ⟨root, names⟩ := p
  unfold relativeTo?
  constructor
  · intro h
    split at h
    · next hcond =>
      simp only [Bool.and_eq_true, beq_iff_eq, List.isPrefixOf_iff_prefix] at hcond
      obtain ⟨hroot, rest, hrest⟩ := hcond
      obtain rfl := Option.some.inj h
      simp only [← hrest, List.drop_left, ← hroot]
    · cases h
  · intro h
    obtain ⟨rfl, rfl⟩ := Path.mk.inj h
    simp

theorem normalParts_foldl (kept parts : List String) (hkept : ".." ∉ kept) :
    ".." ∉
      parts.foldl (fun kept part => if part == ".." then kept.tail else part :: kept) kept := by
  induction parts generalizing kept with
  | nil => exact hkept
  | cons part parts ih =>
      refine ih _ ?_
      show ".." ∉ if part == ".." then kept.tail else part :: kept
      split
      · exact fun h => hkept (List.mem_of_mem_tail h)
      · next hpart =>
        rw [List.mem_cons, not_or]
        exact ⟨fun h => hpart (by simp [← h]), hkept⟩

/-- A path in its normal form has no double dots. -/
theorem not_mem_normalParts (parts : List String) : ".." ∉ normalParts parts := by
  unfold normalParts
  rw [List.mem_reverse]
  exact normalParts_foldl [] parts (by simp)

theorem normalParts_of_not_mem {parts : List String} (h : ".." ∉ parts) :
    normalParts parts = parts := by
  have hfoldl : ∀ kept : List String,
      parts.foldl (fun kept part => if part == ".." then kept.tail else part :: kept) kept =
        parts.reverse ++ kept := by
    induction parts with
    | nil => exact fun _ => rfl
    | cons part parts ih =>
        intro kept
        rw [List.mem_cons, not_or] at h
        have hpart : (part == "..") = false := by simpa using Ne.symm h.1
        rw [List.foldl_cons, hpart, if_neg Bool.false_ne_true, ih h.2, List.reverse_cons,
          List.append_assoc]
        rfl
  rw [normalParts, hfoldl, List.append_nil, List.reverse_reverse]

theorem precedes_trans (a b c : Path) (hab : a.precedes b = true) (hbc : b.precedes c = true) :
    a.precedes c = true := by
  simp only [precedes, Bool.not_eq_true', decide_eq_false_iff_not, not_lt] at hab hbc ⊢
  exact hab.trans hbc

theorem precedes_total (a b : Path) : (a.precedes b || b.precedes a) = true := by
  simp only [precedes, Bool.or_eq_true, Bool.not_eq_true', decide_eq_false_iff_not, not_lt]
  exact le_total a.parts b.parts

end Path

/-! ### Directories -/

namespace Store

def IsFileName (name : String) : Prop :=
  name ≠ "" ∧ name ≠ "." ∧ name ≠ ".." ∧ '/' ∉ name.toList

instance (name : String) : Decidable (IsFileName name) :=
  inferInstanceAs (Decidable (name ≠ "" ∧ name ≠ "." ∧ name ≠ ".." ∧ '/' ∉ name.toList))

/-- In no directory are there two entries of one name, or one with a name that leads elsewhere. -/
def Proper (s : Store) : Prop := (Tree.branch s.root : Entry).Proper IsFileName

theorem proper_empty : empty.Proper := Tree.proper_nil

/-- Files that are put under names keep a store proper. -/
theorem Proper.place {s : Store} (hs : s.Proper) {parts : List String} (hne : parts ≠ [])
    (hparts : ∀ name ∈ parts, IsFileName name) (c : Content) :
    (s.place parts (.leaf c)).Proper := by
  rw [Proper, branch_root_place s hne]
  exact (Tree.proper_leaf c).graft hparts hs

theorem follow_plain {s : Store} {here parts place : List String} (hparts : ".." ∉ parts)
    (h : s.follow here parts = .ok place) : place = here ++ parts := by
  induction parts generalizing here with
  | nil =>
      obtain rfl := Except.ok.inj h
      exact (List.append_nil here).symm
  | cons name parts ih =>
      rw [List.mem_cons, not_or] at hparts
      have hname : (name == "..") = false := by simpa using Ne.symm hparts.1
      rw [follow] at h
      split at h
      · cases h
      · cases h
      · cases h
      · rw [hname, if_neg Bool.false_ne_true] at h
        rw [ih hparts.2 h, List.append_assoc]
        rfl

theorem follow_of_entry {s : Store} (here : List String) {parts : List String}
    {cs : Table String Entry} (hparts : ".." ∉ parts)
    (h : s.entry? (here ++ parts) = some (.branch cs)) :
    s.follow here parts = .ok (here ++ parts) := by
  induction parts generalizing here with
  | nil => rw [List.append_nil, follow]
  | cons name parts ih =>
      rw [List.mem_cons, not_or] at hparts
      have hname : (name == "..") = false := by simpa using Ne.symm hparts.1
      obtain ⟨ds, hds⟩ : ∃ ds, s.entry? here = some (.branch ds) := Tree.exists_branch_of_append h
      rw [show here ++ name :: parts = (here ++ [name]) ++ parts by simp] at h ⊢
      rw [follow, hds, hname]
      exact ih _ hparts.2 h

theorem find_of_entry {s : Store} {p : Path} (hp : ".." ∉ p.parts) {cs : Table String Entry}
    (h : s.entry? p.parts = some (.branch cs)) : s.find p = .ok (.branch cs) :=
  find_eq_ok.2 ⟨p.parts, follow_of_entry [] hp h, h, by simp⟩

/-- A path without double dots is that of a directory exactly if there is one. -/
theorem isDirectory_iff {s : Store} {p : Path} (hp : ".." ∉ p.parts) :
    s.isDirectory p = true ↔ ∃ cs, s.entry? p.parts = some (.branch cs) := by
  constructor
  · intro h
    unfold isDirectory at h
    split at h
    · next cs hfind =>
      obtain ⟨place, hfollow, hentry, -⟩ := find_eq_ok.1 hfind
      obtain rfl : place = p.parts := follow_plain hp hfollow
      exact ⟨cs, hentry⟩
    · cases h
  · rintro ⟨cs, hcs⟩
    rw [isDirectory, find_of_entry hp hcs]

theorem children_of_entry {s : Store} {p : Path} (hp : ".." ∉ p.parts) {cs : Table String Entry}
    (h : s.entry? p.parts = some (.branch cs)) : s.children p = cs := by
  rw [children, find_of_entry hp h]
  rfl

/-! ### Paths that are too long -/

/-- A name is looked up in a directory that has none like it, and is longer than a name can be. -/
structure LongName (s : Store) (front : List String) (name : String) : Prop where
  directory : ∃ cs, s.entry? front = some (.branch cs)
  absent : s.entry? (front ++ [name]) = none
  long : 255 < name.utf8ByteSize

theorem lookUp_of_none {s : Store} {here : List String} (h : s.entry? here = none)
    (names : List String) : s.lookUp here names = .error (absence here) := by
  cases names <;> simp [lookUp, follow, h, bind, Except.bind, throw, throwThe, MonadExceptOf.throw]

theorem lookUp_of_leaf {s : Store} {here : List String} {c : Content}
    (h : s.entry? here = some (.leaf c)) (names : List String) :
    s.lookUp here names ≠ .error .tooLong := by
  cases names <;> cases c <;>
    simp [lookUp, follow, h, bind, Except.bind, throw, throwThe, MonadExceptOf.throw, pure,
      Except.pure]

theorem lookUp_cons {s : Store} {here : List String} {cs : Table String Entry}
    (h : s.entry? here = some (.branch cs)) {name : String} (hname : name ≠ "..")
    (names : List String) : s.lookUp here (name :: names) = s.lookUp (here ++ [name]) names := by
  simp [lookUp, follow, h, hname]

theorem absence_concat (front : List String) (name : String) :
    absence (front ++ [name]) = .tooLong ↔ 255 < name.utf8ByteSize := by
  simp [absence]

/-- Of some names that are looked up from a directory on, one cannot be where it is looked up. -/
def TooLongFrom (s : Store) (here names : List String) : Prop :=
  ∃ front name rest, names = front ++ name :: rest ∧ s.LongName (here ++ front) name

theorem TooLongFrom.directory {s : Store} {here names : List String}
    (h : s.TooLongFrom here names) :
    ∃ cs, s.entry? here = some (.branch cs) := by
  obtain ⟨front, name, rest, -, hlong⟩ := h
  obtain ⟨cs, hcs⟩ := hlong.directory
  exact Tree.exists_branch_of_append hcs

theorem tooLongFrom_cons {s : Store} {here names : List String} {name : String} :
    s.TooLongFrom here (name :: names) ↔
      s.LongName here name ∨ s.TooLongFrom (here ++ [name]) names := by
  constructor
  · rintro ⟨front, last, rest, hsplit, hlong⟩
    cases front with
    | nil =>
        obtain ⟨rfl, -⟩ := List.cons.inj hsplit
        exact Or.inl (by simpa using hlong)
    | cons first front =>
        obtain ⟨rfl, hrest⟩ := List.cons.inj hsplit
        exact Or.inr ⟨front, last, rest, hrest, by simpa using hlong⟩
  · rintro (hlong | ⟨front, last, rest, hrest, hlong⟩)
    · exact ⟨[], name, names, rfl, by simpa using hlong⟩
    · exact ⟨name :: front, last, rest, by rw [hrest]; rfl, by simpa using hlong⟩

/-- Names are refused exactly if one of them is looked up in a directory that cannot have it. -/
theorem lookUp_eq_tooLong {s : Store} {here names : List String} (hnames : ".." ∉ names)
    (hhere : ∃ cs, s.entry? here = some (.branch cs)) :
    s.lookUp here names = .error .tooLong ↔ s.TooLongFrom here names := by
  obtain ⟨cs, hcs⟩ := hhere
  induction names generalizing here cs with
  | nil =>
      simp [lookUp, follow, hcs, TooLongFrom, bind, Except.bind, pure, Except.pure]
  | cons name names ih =>
      rw [List.mem_cons, not_or] at hnames
      rw [lookUp_cons hcs (Ne.symm hnames.1), tooLongFrom_cons]
      have hbelow : (∀ ds, s.entry? (here ++ [name]) ≠ some (.branch ds)) →
          ¬ s.TooLongFrom (here ++ [name]) names := by
        intro hno h
        obtain ⟨ds, hds⟩ := h.directory
        exact hno ds hds
      cases hentry : s.entry? (here ++ [name]) with
      | none =>
          rw [lookUp_of_none hentry, Except.error.injEq, absence_concat,
            or_iff_left (hbelow (by simp [hentry]))]
          exact ⟨fun hlong => ⟨⟨cs, hcs⟩, hentry, hlong⟩, LongName.long⟩
      | some e =>
          rw [or_iff_right fun h : s.LongName here name => by simpa [hentry] using h.absent]
          cases e with
          | leaf c =>
              exact iff_of_false (lookUp_of_leaf hentry names) (hbelow (by simp [hentry]))
          | branch ds => exact ih hnames.2 ds hentry

/-- A path with nothing at its end is too long, as a whole or for a name in it. -/
structure TooLong (s : Store) (p : Path) : Prop where
  speakable : p.hasNull = false
  absent : ∀ e, s.find p ≠ .ok e
  long : 4095 < p.toString.utf8ByteSize ∨ s.TooLongFrom [] p.parts

theorem refuses_eq_true {s : Store} {p : Path} :
    s.refuses p = true ↔ s.find p = .error .tooLong := by
  unfold refuses
  split
  · next h => exact iff_of_true rfl h
  · next h => exact iff_of_false Bool.false_ne_true h

theorem refuses_iff {s : Store} {p : Path} (hp : ".." ∉ p.parts) :
    s.refuses p = true ↔ s.TooLong p := by
  have htop : s.entry? [] = some (.branch s.root) := rfl
  have hnames := lookUp_eq_tooLong hp ⟨_, htop⟩
  rw [refuses_eq_true]
  cases hlook : s.lookUp [] p.parts with
  | ok e =>
      have hfind : s.find p = .ok e := by rw [find, hlook, mapError_ok]
      exact iff_of_false (by simp [hfind]) fun h => h.absent e hfind
  | error f =>
      have hfind : s.find p = .error (f.told p) := by rw [find, hlook, mapError_error]
      rw [hlook, Except.error.injEq] at hnames
      rw [hfind, Except.error.injEq, Fault.told]
      constructor
      · intro h
        split at h
        · cases h
        · next hnull =>
          refine ⟨by simpa using hnull, by simp [hfind], ?_⟩
          split at h
          · next hwhole => exact Or.inl hwhole
          · exact Or.inr (hnames.1 h)
      · rintro ⟨hnull, -, hlong⟩
        rw [hnull, if_neg Bool.false_ne_true]
        split
        · rfl
        · next hwhole => exact hnames.2 (hlong.resolve_left hwhole)

theorem refuses_of_isDirectory {s : Store} {p : Path} (h : s.isDirectory p = true) :
    s.refuses p = false := by
  unfold isDirectory at h
  unfold refuses
  split at h
  · next hfind => rw [hfind]
  · cases h

end Store

/-! ### What is ignored -/

namespace Project

namespace IgnoreList

def globHides (p : Path) (glob : List Char) : Bool :=
  p.lineage.any fun q => globAccepts glob q.toString.toList

theorem hides_iff {l : IgnoreList} {p : Path} :
    l.hides p = true ↔
      (∃ name ∈ l.names, name ∈ p.parts) ∨ ∃ glob ∈ l.globs, globHides p glob = true := by
  simp only [hides, globHides, Bool.or_eq_true, List.any_eq_true, List.contains_iff_mem, and_comm]

/-- What lies below something hidden is hidden. -/
theorem hides_of_contains {l : IgnoreList} {p q : Path} (h : p.Contains q) (hp : l.hides p = true) :
    l.hides q = true := by
  rw [hides_iff] at hp ⊢
  rcases hp with ⟨name, hname, hpart⟩ | ⟨glob, hglob, haccepts⟩
  · exact Or.inl ⟨name, hname, h.2.subset hpart⟩
  · obtain ⟨r, hr, haccepts⟩ := List.any_eq_true.1 haccepts
    exact Or.inr ⟨glob, hglob, List.any_eq_true.2 ⟨r, Path.lineage_subset h.1 h.2 hr, haccepts⟩⟩

/-- A list with one more pattern hides what the list or the pattern hides. -/
theorem hides_add {l : IgnoreList} {raw : List Char} {p : Path} :
    (l.add raw).hides p = true ↔ l.hides p = true ∨ (empty.add raw).hides p = true := by
  unfold add
  simp only
  split
  · simp [hides_iff, empty]
  · split
    · simp [hides_iff, empty, or_and_right, exists_or, or_assoc]
    · simp only [hides_iff, empty, List.mem_insert_iff, or_and_right, exists_or, exists_eq_left,
        List.not_mem_nil, false_and, exists_false, or_false]
      rw [or_assoc, or_comm]

/-- An ignore list hides what one of its patterns hides. -/
theorem hides_ofPatterns {patterns : List (List Char)} {p : Path} :
    (ofPatterns patterns).hides p = true ↔ ∃ raw ∈ patterns, (empty.add raw).hides p = true := by
  have hfoldl : ∀ l : IgnoreList, (patterns.foldl add l).hides p = true ↔
      l.hides p = true ∨ ∃ raw ∈ patterns, (empty.add raw).hides p = true := by
    induction patterns with
    | nil => simp
    | cons raw patterns ih =>
        intro l
        rw [List.foldl_cons, ih, hides_add, or_assoc]
        simp only [List.mem_cons, or_and_right, exists_or, exists_eq_left]
  rw [ofPatterns, hfoldl]
  simp [hides_iff, empty]

end IgnoreList

/-! ### Walking -/

def Wanted.Keeps (w : Wanted) (f : Path) : Prop :=
  hasExtension w.extensions (f.parts.getLast?.getD "") = true ∧ w.ignore.hides f = false

mutual

/-- At an entry the walk finds the wanted files. Where it turns back, all is hidden. -/
theorem Wanted.mem_filesAt (w : Wanted) (f here : Path) (name : String)
    (hname : here.parts.getLast? = some name) :
    ∀ e : Entry, e.Proper Store.IsFileName →
      (f ∈ w.filesAt here name e ↔
        ∃ path c, Tree.get? path e = some (.leaf c) ∧ f = ⟨here.root, here.parts ++ path⟩ ∧
          w.Keeps f)
  | .leaf c, _ => by
      constructor
      · intro hf
        rw [Wanted.filesAt] at hf
        split at hf
        · next hkeeps =>
          obtain rfl := List.mem_singleton.1 hf
          refine ⟨[], c, rfl, by rw [List.append_nil], ?_⟩
          simpa [Wanted.Keeps, hname] using hkeeps
        · cases hf
      · rintro ⟨path, c', hpath, rfl, hkeeps⟩
        cases path with
        | cons first path => cases hpath
        | nil =>
            have hwanted : (hasExtension w.extensions name && !w.ignore.hides here) = true := by
              simpa [Wanted.Keeps, hname] using hkeeps
            rw [Wanted.filesAt, if_pos hwanted, List.append_nil]
            exact List.mem_singleton_self _
  | .branch cs, hcs => by
      have hbelow := Wanted.mem_filesBelow w f here cs fun name e he =>
        hcs.child ((Table.get?_eq_some_iff hcs.nodup).2 he)
      constructor
      · intro hf
        rw [Wanted.filesAt] at hf
        split at hf
        · cases hf
        · obtain ⟨first, e, path, c, he, hpath, hfile, hkeeps⟩ := hbelow.1 hf
          refine ⟨first :: path, c, ?_, hfile, hkeeps⟩
          rw [Tree.get?, Tree.children_branch, (Table.get?_eq_some_iff hcs.nodup).2 he]
          exact hpath
      · rintro ⟨path, c, hpath, hfile, hkeeps⟩
        -- had the walk turned back here, the file would be hidden with its directory
        have hseen : w.ignore.hides here = false := by
          by_contra hhidden
          have hcontains : here.Contains f := by
            rw [hfile]
            exact ⟨rfl, List.prefix_append _ _⟩
          have hhides := IgnoreList.hides_of_contains hcontains (by simpa using hhidden)
          rw [hkeeps.2] at hhides
          cases hhides
        cases path with
        | nil => cases hpath
        | cons first path =>
            obtain ⟨e, he, hpath⟩ := Tree.exists_child hpath
            rw [Wanted.filesAt, hseen, if_neg Bool.false_ne_true]
            exact hbelow.2 ⟨first, e, path, c,
              (Table.get?_eq_some_iff hcs.nodup).1 he, hpath, hfile, hkeeps⟩

theorem Wanted.mem_filesBelow (w : Wanted) (f here : Path) :
    ∀ cs : List (String × Entry), (∀ name e, (name, e) ∈ cs → Tree.Proper Store.IsFileName e) →
      (f ∈ w.filesBelow here cs ↔
        ∃ name e path c, (name, e) ∈ cs ∧ Tree.get? path e = some (.leaf c) ∧
          f = ⟨here.root, here.parts ++ name :: path⟩ ∧ w.Keeps f)
  | [], _ => by simp [Wanted.filesBelow]
  | (name, e) :: rest, hcs => by
      have hat := Wanted.mem_filesAt w f (here.child name) name (by simp [Path.child]) e
        (hcs name e List.mem_cons_self)
      have hrest := Wanted.mem_filesBelow w f here rest
        fun name e he => hcs name e (List.mem_cons_of_mem _ he)
      rw [Wanted.filesBelow, List.mem_append, hat, hrest]
      constructor
      · rintro (⟨path, c, hpath, hfile, hkeeps⟩ | ⟨other, e', path, c, he, hfound⟩)
        · exact ⟨name, e, path, c, List.mem_cons_self, hpath,
            by simpa [Path.child] using hfile, hkeeps⟩
        · exact ⟨other, e', path, c, List.mem_cons_of_mem _ he, hfound⟩
      · rintro ⟨other, e', path, c, he, hpath, hfile, hkeeps⟩
        rcases List.mem_cons.1 he with he | he
        · obtain ⟨rfl, rfl⟩ := Prod.mk.inj he
          exact Or.inl ⟨path, c, hpath, by simpa [Path.child] using hfile, hkeeps⟩
        · exact Or.inr ⟨other, e', path, c, he, hpath, hfile, hkeeps⟩

end

/-- Below a directory the walk finds the wanted files of the store. -/
theorem Wanted.mem_filesBelow_children (w : Wanted) {store : Store} (hstore : store.Proper)
    {root : Path} {parts : List String} (hdots : ".." ∉ root.parts ++ parts)
    (hdirectory : store.isDirectory ⟨root.root, root.parts ++ parts⟩ = true) (f : Path) :
    f ∈ w.filesBelow ⟨"", parts⟩ (store.children ⟨root.root, root.parts ++ parts⟩) ↔
      (∃ c, store.entry? (root.parts ++ f.parts) = some (.leaf c)) ∧
        Path.Contains ⟨"", parts⟩ f ∧ w.Keeps f := by
  obtain ⟨cs, hcs⟩ := (Store.isDirectory_iff hdots).1 hdirectory
  have hentry : ∀ path,
      store.entry? (root.parts ++ parts ++ path) = Tree.get? path (.branch cs : Entry) := by
    intro path
    rw [Store.entry?, Tree.get?_append, show Tree.get? _ _ = some (.branch cs) from hcs]
    rfl
  have hproper : (Tree.branch cs : Entry).Proper Store.IsFileName := by
    intro path ds hds
    rw [← hentry] at hds
    exact hstore _ ds hds
  rw [Store.children_of_entry hdots hcs, w.mem_filesBelow f _ cs fun name e he =>
    hproper.child ((Table.get?_eq_some_iff hproper.nodup).2 he)]
  constructor
  · rintro ⟨name, e, path, c, he, hpath, rfl, hkeeps⟩
    refine ⟨⟨c, ?_⟩, ⟨rfl, List.prefix_append _ _⟩, hkeeps⟩
    rw [← List.append_assoc, hentry, Tree.get?, Tree.children_branch,
      (Table.get?_eq_some_iff hproper.nodup).2 he]
    exact hpath
  · rintro ⟨⟨c, hc⟩, ⟨hroot, path, hpath⟩, hkeeps⟩
    rw [← hpath, ← List.append_assoc, hentry] at hc
    cases path with
    | nil => cases hc
    | cons name path =>
        obtain ⟨e, he, hpath'⟩ := Tree.exists_child hc
        refine ⟨name, e, path, c, (Table.get?_eq_some_iff hproper.nodup).1 he, hpath', ?_, hkeeps⟩
        obtain ⟨root', parts'⟩ := f
        exact congrArg₂ Path.mk hroot.symm hpath.symm

/-! ### Directories to walk -/

def includeTarget (root : Path) (raw : List Char) : Path :=
  (root.join (.ofChars (trimSlashes (slashed raw)))).normalize

/-- A directory below which files are looked for: the root if no directories are given, and
otherwise each that is given, exists and lies in the root. -/
def IsBase (store : Store) (root : Path) (directories : List (List Char)) (base : Path) : Prop :=
  if directories = [] then base = root
  else ∃ raw ∈ directories,
    base = includeTarget root raw ∧ store.isDirectory base = true ∧ root.Contains base

/-- An entry of the include list that stops the search for files: a null character stands in it, or
it names something in the root by a path that is too long. -/
inductive Refused (store : Store) (root : Path) (raw : List Char) : Prop
  | null (held : '\x00' ∈ trimSlashes (slashed raw))
  | long (inside : root.Contains (includeTarget root raw))
      (long : store.TooLong (includeTarget root raw))

section

variable {store : Store} {root : Path} {directories : List (List Char)}

def included (store : Store) (root target : Path) : Except Warning (List String) :=
  match root.relativeTo? target with
  | none => .error (.outside target root)
  | some parts => if store.isDirectory target then .ok parts else .error (.absent target)

theorem included_eq_ok {target : Path} {parts : List String} :
    included store root target = .ok parts ↔
      target = ⟨root.root, root.parts ++ parts⟩ ∧ store.isDirectory target = true := by
  rw [← Path.relativeTo?_eq_some, included]
  cases root.relativeTo? target with
  | none => simp
  | some found =>
      simp only
      split
      · next h => simp [h]
      · next h => simp [h]

/-- An entry is refused or it names a directory, one to walk or one to warn of. -/
theorem includeDirectory_cases (hroot : ".." ∉ root.parts) (raw : List Char) :
    (Refused store root raw ∧ ∃ f d, includeDirectory store root raw = .error (.refused f d)) ∨
      (¬ Refused store root raw ∧
        includeDirectory store root raw = .ok (included store root (includeTarget root raw))) := by
  have htarget : (if (trimSlashes (slashed raw)).isEmpty then root
      else (root.join (.ofChars (trimSlashes (slashed raw)))).normalize) =
        includeTarget root raw := by
    unfold includeTarget
    split
    · next hempty =>
      rw [List.isEmpty_iff.1 hempty]
      obtain ⟨top, names⟩ := root
      simp [Path.ofChars, Path.splitAt, Path.rootOf, Path.join, Path.isAbsolute, Path.normalize,
        Path.normalParts_of_not_mem hroot]
    · rfl
  have hlong := @Store.refuses_iff store (includeTarget root raw) (Path.not_mem_normalParts _)
  unfold includeDirectory included
  simp only [htarget]
  split
  · next hnull => exact Or.inl ⟨.null (by simpa using hnull), _, _, rfl⟩
  · next hnull =>
    cases hrelative : root.relativeTo? (includeTarget root raw) with
    | none =>
        refine Or.inr ⟨?_, rfl⟩
        rintro (hheld | ⟨inside, -⟩)
        · exact hnull (by simpa using hheld)
        · obtain ⟨rest, hrest⟩ := inside.2
          have hsome : root.relativeTo? (includeTarget root raw) = some rest :=
            Path.relativeTo?_eq_some.2 (congrArg₂ Path.mk inside.1.symm hrest.symm)
          rw [hrelative] at hsome
          cases hsome
    | some parts =>
        have hparts := Path.relativeTo?_eq_some.1 hrelative
        simp only
        split
        · next hrefuses =>
          refine Or.inl ⟨.long ?_ (hlong.1 hrefuses), _, _, rfl⟩
          rw [hparts]
          exact ⟨rfl, List.prefix_append _ _⟩
        · next hrefuses =>
          refine Or.inr ⟨?_, by split <;> rfl⟩
          rintro (hheld | ⟨-, htoo⟩)
          · exact hnull (by simpa using hheld)
          · exact hrefuses (hlong.2 htoo)

theorem exists_bases (hroot : ".." ∉ root.parts) :
    (∃ found, bases store root directories = .ok found) ↔
      ∀ x ∈ directories, ¬ Refused store root x := by
  unfold bases
  split
  · next hempty => simp [List.isEmpty_iff.1 hempty]
  · have hentry (x : List Char) :
        (∃ r, includeDirectory store root x = .ok r) ↔ ¬ Refused store root x := by
      rcases includeDirectory_cases hroot x with ⟨hrefused, f, d, he⟩ | ⟨hkept, hok⟩
      · exact iff_of_false (by simp [he]) (not_not.2 hrefused)
      · exact iff_of_true ⟨_, hok⟩ hkept
    simp only [← hentry, ← exists_mapM_eq_ok]
    constructor
    · rintro ⟨found, h⟩
      obtain ⟨rs, hrs, -⟩ := bind_eq_ok.1 h
      exact ⟨rs, hrs⟩
    · rintro ⟨rs, hrs⟩
      exact ⟨_, bind_eq_ok.2 ⟨rs, hrs, rfl⟩⟩

/-- The entries of an include list that has none to refuse, as they are found. -/
theorem mapM_includeDirectory (hroot : ".." ∉ root.parts) {rs : List (Except Warning (List String))}
    (h : directories.mapM (includeDirectory store root) = .ok rs) :
    rs = directories.map fun x => included store root (includeTarget root x) := by
  rw [mapM_eq_ok] at h
  induction h with
  | nil => rfl
  | @cons x r _ _ hx _ ih =>
      rcases includeDirectory_cases hroot x with ⟨-, f, d, he⟩ | ⟨-, hok⟩
      · rw [he] at hx
        cases hx
      · rw [hok] at hx
        rw [List.map_cons, ← ih, Except.ok.inj hx]

theorem mem_bases (hroot : ".." ∉ root.parts) {found : List (List String) × List Warning}
    (h : bases store root directories = .ok found) {parts : List String} :
    parts ∈ found.1 ↔ IsBase store root directories ⟨root.root, root.parts ++ parts⟩ := by
  unfold bases at h
  unfold IsBase
  by_cases hempty : directories = []
  · subst hempty
    obtain rfl := Except.ok.inj h
    rw [if_pos rfl, List.mem_singleton]
    obtain ⟨top, names⟩ := root
    simp
  · rw [if_neg (by simpa using hempty)] at h
    obtain ⟨rs, hrs, h⟩ := bind_eq_ok.1 h
    obtain rfl := Except.ok.inj h
    rw [if_neg hempty, mapM_includeDirectory hroot hrs]
    simp only [List.mem_eraseDups, List.mem_filterMap, List.mem_map, exists_exists_and_eq_and]
    refine exists_congr fun raw => and_congr_right fun _ => ?_
    have hok : (included store root (includeTarget root raw)).toOption = some parts ↔
        included store root (includeTarget root raw) = .ok parts := by
      cases included store root (includeTarget root raw) <;> simp [Except.toOption]
    rw [hok, included_eq_ok]
    constructor
    · rintro ⟨htarget, hdirectory⟩
      rw [htarget] at hdirectory ⊢
      exact ⟨rfl, hdirectory, rfl, List.prefix_append _ _⟩
    · rintro ⟨htarget, hdirectory, -⟩
      rw [← htarget]
      exact ⟨rfl, hdirectory⟩

end

/-! ### Order -/

theorem nodup_eraseDups {α : Type} [DecidableEq α] (l : List α) : l.eraseDups.Nodup := by
  induction hn : l.length using Nat.strong_induction_on generalizing l with
  | _ n ih =>
      cases l with
      | nil => simp
      | cons a l =>
          rw [List.eraseDups_cons, List.nodup_cons]
          refine ⟨by simp, ih _ ?_ _ rfl⟩
          rw [← hn, List.length_cons]
          exact Nat.lt_succ_of_le (List.length_filter_le _ _)

/-- Paths from one place on, each once and in order, go up strictly. -/
theorem increasing_mergeSort {l : List Path} (hl : ∀ f ∈ l, f.root = "") :
    (l.eraseDups.mergeSort Path.precedes).Pairwise fun a b => a.parts < b.parts := by
  have hperm := List.mergeSort_perm l.eraseDups Path.precedes
  have hsorted : (l.eraseDups.mergeSort Path.precedes).Pairwise fun a b => a.precedes b = true :=
    List.pairwise_mergeSort Path.precedes_trans Path.precedes_total _
  have hnodup : (l.eraseDups.mergeSort Path.precedes).Nodup := hperm.nodup_iff.2 (nodup_eraseDups l)
  refine (List.Pairwise.and_mem.1 (hsorted.and hnodup)).imp ?_
  rintro a b ⟨ha, hb, hprecedes, hne⟩
  simp only [Path.precedes, Bool.not_eq_true', decide_eq_false_iff_not, not_lt] at hprecedes
  refine lt_of_le_of_ne hprecedes fun hparts => hne ?_
  have hroot : a.root = b.root := by
    rw [hl a (List.mem_eraseDups.1 (hperm.mem_iff.1 ha)),
      hl b (List.mem_eraseDups.1 (hperm.mem_iff.1 hb))]
  obtain ⟨aRoot, aParts⟩ := a
  obtain ⟨bRoot, bParts⟩ := b
  exact congrArg₂ Path.mk hroot hparts

/-- Paths that go up strictly are determined by which they are. -/
theorem eq_of_increasing {l m : List Path} (hl : l.Pairwise fun a b => a.parts < b.parts)
    (hm : m.Pairwise fun a b => a.parts < b.parts) (h : ∀ f, f ∈ l ↔ f ∈ m) : l = m := by
  have : Std.Irrefl fun a b : Path => a.parts < b.parts := ⟨fun a => lt_irrefl a.parts⟩
  have : Std.Antisymm fun a b : Path => a.parts < b.parts :=
    ⟨fun a b hab hba => absurd hba (lt_asymm hab)⟩
  exact hl.eq_of_mem_iff hm h

/-! ### The set of files -/

/-- A file of a project, seen from the root: it is there, it lies below a directory to walk, its
name ends in a wanted extension, and it is not ignored. -/
structure Belongs (store : Store) (root : Path) (raw ignore directories : List (List Char))
    (f : Path) : Prop where
  relative : f.root = ""
  file : ∃ c, store.entry? (root.parts ++ f.parts) = some (.leaf c)
  base : ∃ base, IsBase store root directories base ∧ base.Contains (root.join f)
  extension : ∃ e ∈ extensions raw, e <:+ lower f.name
  shown : (IgnoreList.ofPatterns ignore).hides f = false

theorem join_relative {f : Path} (h : f.root = "") (root : Path) :
    root.join f = ⟨root.root, root.parts ++ f.parts⟩ := by
  simp [Path.join, Path.isAbsolute, h]

theorem keeps_iff {raw ignore : List (List Char)} {f : Path} :
    Wanted.Keeps ⟨extensions raw, .ofPatterns ignore⟩ f ↔
      (∃ e ∈ extensions raw, e <:+ lower f.name) ∧
        (IgnoreList.ofPatterns ignore).hides f = false := by
  simp [Wanted.Keeps, hasExtension, Path.name]

section

variable {store : Store} {root : Path} {raw ignore directories : List (List Char)}

theorem not_mem_of_isBase (hroot : ".." ∉ root.parts) {base : Path}
    (h : IsBase store root directories base) : ".." ∉ base.parts := by
  unfold IsBase at h
  split at h
  · rwa [h]
  · obtain ⟨raw, -, rfl, -⟩ := h
    exact Path.not_mem_normalParts _

theorem isDirectory_of_isBase (hdirectory : store.isDirectory root = true) {base : Path}
    (h : IsBase store root directories base) : store.isDirectory base = true := by
  unfold IsBase at h
  split at h
  · rwa [h]
  · obtain ⟨raw, -, -, hbase, -⟩ := h
    exact hbase

theorem contains_of_isBase {base : Path} (h : IsBase store root directories base) :
    root.Contains base := by
  unfold IsBase at h
  split at h
  · rw [h]
    exact ⟨rfl, List.prefix_rfl⟩
  · obtain ⟨raw, -, -, -, hcontains⟩ := h
    exact hcontains

/-- Walking all directories finds the files that belong to the project. -/
theorem mem_walk (hstore : store.Proper) (hroot : ".." ∉ root.parts)
    (hdirectory : store.isDirectory root = true) {found : List (List String) × List Warning}
    (hfound : bases store root directories = .ok found) {f : Path} :
    f ∈ found.1.flatMap (fun parts =>
        Wanted.filesBelow ⟨extensions raw, .ofPatterns ignore⟩ ⟨"", parts⟩
          (store.children ⟨root.root, root.parts ++ parts⟩)) ↔
      Belongs store root raw ignore directories f := by
  have hbelow : ∀ parts, IsBase store root directories ⟨root.root, root.parts ++ parts⟩ →
      (f ∈ Wanted.filesBelow ⟨extensions raw, .ofPatterns ignore⟩ ⟨"", parts⟩
          (store.children ⟨root.root, root.parts ++ parts⟩) ↔ _) := fun parts hbase =>
    Wanted.mem_filesBelow_children _ hstore (not_mem_of_isBase hroot hbase)
      (isDirectory_of_isBase hdirectory hbase) f
  rw [List.mem_flatMap]
  constructor
  · rintro ⟨parts, hparts, hf⟩
    have hbase := (mem_bases hroot hfound).1 hparts
    obtain ⟨hfile, ⟨hrelative, hinside⟩, hkeeps⟩ := (hbelow parts hbase).1 hf
    obtain ⟨hextension, hshown⟩ := keeps_iff.1 hkeeps
    refine ⟨hrelative.symm, hfile, ⟨_, hbase, ?_⟩, hextension, hshown⟩
    rw [join_relative hrelative.symm]
    exact ⟨rfl, (List.prefix_append_right_inj _).2 hinside⟩
  · intro h
    obtain ⟨base, hbase, hcontains⟩ := h.base
    obtain ⟨top, parts, rfl⟩ : ∃ top parts, base = ⟨top, root.parts ++ parts⟩ := by
      obtain ⟨parts, hparts⟩ := (contains_of_isBase hbase).2
      exact ⟨base.root, parts, by rw [hparts]⟩
    obtain rfl : root.root = top := (contains_of_isBase hbase).1
    rw [join_relative h.relative] at hcontains
    refine ⟨parts, (mem_bases hroot hfound).2 hbase,
      (hbelow parts hbase).2 ⟨h.file, ⟨h.relative.symm, ?_⟩, ?_⟩⟩
    · exact (List.prefix_append_right_inj _).1 hcontains.2
    · exact keeps_iff.2 ⟨h.extension, h.shown⟩

/-- In a directory the files are found by walking, unless no extension is wanted. -/
theorem files_of_isDirectory (hdirectory : store.isDirectory root = true) :
    files store root raw ignore directories =
      if (extensions raw).isEmpty then .ok ⟨[], []⟩
      else do
        let found ← bases store root directories
        let walked := found.1.flatMap fun parts =>
          Wanted.filesBelow ⟨extensions raw, .ofPatterns ignore⟩ ⟨"", parts⟩
            (store.children ⟨root.root, root.parts ++ parts⟩)
        return ⟨walked.eraseDups.mergeSort Path.precedes, found.2⟩ := by
  rw [files, Store.refuses_of_isDirectory hdirectory, hdirectory]
  rfl

/-- The files of a directory are told unless an entry of the include list is refused. -/
theorem exists_files (raw ignore : List (List Char)) (hroot : ".." ∉ root.parts)
    (hdirectory : store.isDirectory root = true) :
    (∃ set, files store root raw ignore directories = .ok set) ↔
      extensions raw = [] ∨ ∀ x ∈ directories, ¬ Refused store root x := by
  rw [files_of_isDirectory hdirectory]
  split
  · next hnone => exact iff_of_true ⟨_, rfl⟩ (Or.inl (List.isEmpty_iff.1 hnone))
  · next hsome =>
    rw [or_iff_right (by simpa using hsome), ← exists_bases hroot]
    constructor
    · rintro ⟨set, h⟩
      obtain ⟨found, hfound, -⟩ := bind_eq_ok.1 h
      exact ⟨found, hfound⟩
    · rintro ⟨found, hfound⟩
      exact ⟨_, bind_eq_ok.2 ⟨found, hfound, rfl⟩⟩

/-- What keeps the files of a directory from being told is an entry that is refused. -/
theorem refused_of_files_eq_error (hroot : ".." ∉ root.parts)
    (hdirectory : store.isDirectory root = true) {e : FilesError}
    (h : files store root raw ignore directories = .error e) : ∃ f d, e = .refused f d := by
  rw [files_of_isDirectory hdirectory] at h
  split at h
  · cases h
  · cases hbases : bases store root directories with
    | ok found =>
        rw [hbases] at h
        cases h
    | error e' =>
        rw [hbases] at h
        obtain rfl := Except.error.inj h
        unfold bases at hbases
        split at hbases
        · cases hbases
        · cases hentries : directories.mapM (includeDirectory store root) with
          | ok rs =>
              rw [hentries] at hbases
              cases hbases
          | error e =>
              rw [hentries] at hbases
              obtain rfl := Except.error.inj hbases
              obtain ⟨x, -, hx⟩ := exists_of_mapM_eq_error hentries
              rcases includeDirectory_cases hroot x with ⟨-, f, d, he⟩ | ⟨-, hok⟩
              · exact ⟨f, d, Except.error.inj (hx.symm.trans he)⟩
              · rw [hok] at hx
                cases hx

/-- The files of a project are those that belong to it, in order. -/
theorem files_spec (hstore : store.Proper) (hroot : ".." ∉ root.parts)
    (hdirectory : store.isDirectory root = true) {set : FileSet}
    (h : files store root raw ignore directories = .ok set) :
    (∀ f, f ∈ set.files ↔ Belongs store root raw ignore directories f) ∧
      set.files.Pairwise fun a b => a.parts < b.parts := by
  rw [files_of_isDirectory hdirectory] at h
  split at h
  · next hnone =>
    obtain rfl := Except.ok.inj h
    refine ⟨fun f => ?_, List.Pairwise.nil⟩
    constructor
    · intro hf
      cases hf
    · intro hbelongs
      obtain ⟨e, he, -⟩ := hbelongs.extension
      rw [List.isEmpty_iff.1 hnone] at he
      cases he
  · obtain ⟨found, hfound, h⟩ := bind_eq_ok.1 h
    obtain rfl := Except.ok.inj h
    constructor
    · intro f
      rw [(List.mergeSort_perm _ _).mem_iff, List.mem_eraseDups]
      exact mem_walk hstore hroot hdirectory hfound
    · exact increasing_mergeSort fun f hf =>
        ((mem_walk hstore hroot hdirectory hfound).1 hf).relative

/-- One entry of the include list names a directory in or at that of another, which is in the
root. -/
def Nested (root : Path) (inner outer : List Char) : Prop :=
  root.Contains (includeTarget root outer) ∧
    (includeTarget root outer).Contains (includeTarget root inner)

instance (root : Path) (inner outer : List Char) : Decidable (Nested root inner outer) :=
  inferInstanceAs (Decidable (root.Contains (includeTarget root outer) ∧
    (includeTarget root outer).Contains (includeTarget root inner)))

/-- What contains a directory is one. -/
theorem isDirectory_of_contains {p q : Path} (hq : ".." ∉ q.parts) (h : p.Contains q)
    (hdirectory : store.isDirectory q = true) : store.isDirectory p = true := by
  obtain ⟨cs, hcs⟩ := (Store.isDirectory_iff hq).1 hdirectory
  obtain ⟨rest, hrest⟩ := h.2
  rw [← hrest] at hq hcs
  obtain ⟨ds, hds⟩ := Tree.exists_branch_of_append hcs
  exact (Store.isDirectory_iff fun hp => hq (List.mem_append_left _ hp)).2 ⟨ds, hds⟩

/-- Directories that are nested in others do not matter. -/
theorem exists_isBase_congr (store : Store) {other : List (List Char)} (hsub : directories ⊆ other)
    (hnested : ∀ x ∈ other, x ∈ directories ∨ ∃ y ∈ directories, Nested root x y) (p : Path) :
    (∃ base, IsBase store root other base ∧ base.Contains p) ↔
      ∃ base, IsBase store root directories base ∧ base.Contains p := by
  unfold IsBase
  by_cases hempty : directories = []
  · have hother : other = [] := by
      refine List.eq_nil_iff_forall_not_mem.2 fun x hx => ?_
      rcases hnested x hx with h | ⟨y, hy, -⟩
      · simp [hempty] at h
      · simp [hempty] at hy
    rw [hempty, hother]
  · have hother : other ≠ [] := fun h => hempty (List.subset_nil.1 (h ▸ hsub))
    simp only [if_neg hempty, if_neg hother]
    constructor
    · rintro ⟨_, ⟨x, hx, rfl, hdirectory, hinside⟩, hp⟩
      rcases hnested x hx with h | ⟨y, hy, hy', hxy⟩
      · exact ⟨_, ⟨x, h, rfl, hdirectory, hinside⟩, hp⟩
      · -- the outer directory is there, since the inner one is, and takes its place
        have hdots : ".." ∉ (includeTarget root x).parts := Path.not_mem_normalParts _
        exact ⟨_, ⟨y, hy, rfl, isDirectory_of_contains hdots hxy hdirectory, hy'⟩, hxy.trans hp⟩
    · rintro ⟨base, ⟨x, hx, hbase⟩, hp⟩
      exact ⟨base, ⟨x, hsub hx, hbase⟩, hp⟩

theorem mem_extensions {raw : List (List Char)} {e : List Char} :
    e ∈ extensions raw ↔ ∃ x ∈ raw, extension? x = some e := by
  rw [extensions, List.mem_eraseDups, List.mem_filterMap]

theorem Belongs.congr {raw' ignore' directories' : List (List Char)}
    (hraw : ∀ x, x ∈ raw' ↔ x ∈ raw) (hignore : ∀ x, x ∈ ignore' ↔ x ∈ ignore)
    (hsub : directories ⊆ directories')
    (hnested : ∀ x ∈ directories', x ∈ directories ∨ ∃ y ∈ directories, Nested root x y)
    (f : Path) :
    Belongs store root raw' ignore' directories' f ↔
      Belongs store root raw ignore directories f := by
  have hextensions : ∀ e, e ∈ extensions raw' ↔ e ∈ extensions raw := by
    intro e
    simp only [mem_extensions, hraw]
  have hhides : (IgnoreList.ofPatterns ignore').hides f =
      (IgnoreList.ofPatterns ignore).hides f := by
    rw [Bool.eq_iff_iff, IgnoreList.hides_ofPatterns, IgnoreList.hides_ofPatterns]
    simp only [hignore]
  have hbase := exists_isBase_congr store hsub hnested (root.join f)
  constructor
  · rintro ⟨hrelative, hfile, hbelow, ⟨e, he, hsuffix⟩, hshown⟩
    exact ⟨hrelative, hfile, hbase.1 hbelow, ⟨e, (hextensions e).1 he, hsuffix⟩, hhides ▸ hshown⟩
  · rintro ⟨hrelative, hfile, hbelow, ⟨e, he, hsuffix⟩, hshown⟩
    exact ⟨hrelative, hfile, hbase.2 hbelow, ⟨e, (hextensions e).2 he, hsuffix⟩, hhides ▸ hshown⟩

/-- Where a file is found, seen from the root, no name leads elsewhere. -/
theorem not_mem_of_file (hstore : store.Proper) {directory parts : List String} {c : Content}
    (h : store.entry? (directory ++ parts) = some (.leaf c)) : ".." ∉ parts := by
  intro hdots
  obtain ⟨front, rest, rfl⟩ := List.append_of_mem hdots
  rw [← List.append_assoc, Store.entry?, Tree.get?_append] at h
  obtain ⟨e, he, hrest⟩ := Option.bind_eq_some_iff.1 h
  obtain ⟨child, hchild, -⟩ := Tree.exists_child hrest
  have hbranch := Tree.eq_branch hchild
  rw [hbranch] at he
  have hnames := hstore _ _ he
  have hmem : (".." : String) ∈ e.children.map Prod.fst :=
    List.mem_map.2 ⟨_, (Table.get?_eq_some_iff hnames.1).1 hchild, rfl⟩
  exact (hnames.2 _ hmem).2.2.1 rfl

end

/-- The walk, which goes into no ignored directory, finds what a filter of all files would: those
below a directory to walk that have a wanted extension and are not ignored. They come each once, in
the order of their paths, and none lies outside the root. Neither the order of the entries of the
three lists matters, nor their number, nor directories that are nested in others. There is no
answer exactly if an extension is wanted and an entry of the include list is refused: by a null
character, or by a name that is too long for any directory. -/
theorem files_exact (w : Workspace) (p : Path) (raw ignore directories : List (List Char))
    (hstore : w.store.Proper) (hdirectory : w.store.isDirectory (w.resolve p) = true) :
    let root := w.resolve p
    ((∃ set, files w.store root raw ignore directories = .ok set) ↔
        extensions raw = [] ∨ ∀ x ∈ directories, ¬ Refused w.store root x) ∧
      ∀ set, files w.store root raw ignore directories = .ok set →
        (∀ f, f ∈ set.files ↔ Belongs w.store root raw ignore directories f) ∧
        set.files.Pairwise (fun a b => a.parts < b.parts) ∧
        (∀ f ∈ set.files, root.Contains (root.join f) ∧ (root.join f).normalize = root.join f) ∧
        ∀ raw' ignore' directories', (∀ x, x ∈ raw' ↔ x ∈ raw) →
          (∀ x, x ∈ ignore' ↔ x ∈ ignore) → directories ⊆ directories' →
          (∀ x ∈ directories', x ∈ directories ∨ ∃ y ∈ directories, Nested root x y) →
          (∀ x ∈ directories', ¬ Refused w.store root x) →
          ∃ set', files w.store root raw' ignore' directories' = .ok set' ∧
            set'.files = set.files := by
  intro root
  have hroot : ".." ∉ root.parts := Path.not_mem_normalParts _
  refine ⟨exists_files raw ignore hroot hdirectory, fun set hset => ?_⟩
  obtain ⟨hmem, hincreasing⟩ := files_spec hstore hroot hdirectory hset
  refine ⟨hmem, hincreasing, ?_, ?_⟩
  · intro f hf
    have hbelongs := (hmem f).1 hf
    obtain ⟨c, hc⟩ := hbelongs.file
    have hdots : ".." ∉ root.parts ++ f.parts := by
      rw [List.mem_append, not_or]
      exact ⟨hroot, not_mem_of_file hstore hc⟩
    rw [join_relative hbelongs.relative, Path.normalize, Path.normalParts_of_not_mem hdots]
    exact ⟨⟨rfl, List.prefix_append _ _⟩, rfl⟩
  · intro raw' ignore' directories' hraw hignore hsub hnested hkept
    obtain ⟨set', hset'⟩ := (exists_files raw' ignore' hroot hdirectory).2 (Or.inr hkept)
    obtain ⟨hmem', hincreasing'⟩ := files_spec hstore hroot hdirectory hset'
    refine ⟨set', hset', eq_of_increasing hincreasing' hincreasing fun f => ?_⟩
    rw [hmem', hmem]
    exact Belongs.congr hraw hignore hsub hnested f

/-- Ignored files are left out, and a directory that is named again or within another adds none. -/
theorem files_exact_generated :
    let file : Entry := .leaf (.file [])
    let store := ((Store.empty.place ["w", "src", "a.tsx"] file).place
      ["w", "src", "gen", "b.tsx"] file).place ["w", "lib", "c.tsx"] file
    let root : Path := ⟨"/", ["w"]⟩
    let ignore := ["lib".toList, "**/gen/**".toList]
    let again := ["src/gen".toList, "/src/".toList, "src".toList]
    ∃ set, files store root ["TSX".toList] ignore ["src".toList] = .ok set ∧
      set.files = [⟨"", ["src", "a.tsx"]⟩] ∧
      ∃ set', files store root ["TSX".toList, "TSX".toList] ignore.reverse again = .ok set' ∧
        set'.files = set.files := by
  intro file store root ignore again
  have hproper : store.Proper :=
    ((Store.proper_empty.place (by simp) (by decide +kernel) _).place (by simp)
      (by decide +kernel) _).place (by simp) (by decide +kernel) _
  have hdirectory : store.isDirectory root = true := by decide +kernel
  have hexact := files_exact ⟨store, root, ⟨"/", ["h"]⟩, []⟩ root
  have hroot : Workspace.resolve ⟨store, root, ⟨"/", ["h"]⟩, []⟩ root = root := by decide +kernel
  rw [hroot] at hexact
  have hset : files store root ["TSX".toList] ignore ["src".toList] =
      .ok ⟨[⟨"", ["src", "a.tsx"]⟩], []⟩ := by
    decide +kernel
  have hagain : files store root ["TSX".toList] ignore again =
      .ok ⟨[⟨"", ["src", "a.tsx"]⟩], []⟩ := by
    decide +kernel
  have hkept : ∀ x ∈ again, ¬ Refused store root x :=
    ((hexact _ _ again hproper hdirectory).1.1 ⟨_, hagain⟩).resolve_left (by decide +kernel)
  have hnested : ∀ x ∈ again, x ∈ ["src".toList] ∨ ∃ y ∈ ["src".toList], Nested root x y := by
    have hcontains : ∀ x ∈ again, Nested root x "src".toList := by decide +kernel
    exact fun x hx => Or.inr ⟨_, List.mem_singleton_self _, hcontains x hx⟩
  obtain ⟨-, -, -, hsame⟩ := (hexact _ ignore _ hproper hdirectory).2 _ hset
  exact ⟨_, hset, rfl, hsame _ _ _ (by simp) (by simp) (by simp [again]) hnested hkept⟩

/-- An entry of three hundred letters is not passed over: there is no answer. -/
theorem files_stopped :
    let store := Store.empty.place ["w", "a.tsx"] (.leaf (.file []))
    let root : Path := ⟨"/", ["w"]⟩
    let long := List.replicate 300 'a'
    store.isDirectory root = true ∧
      files store root [".tsx".toList] [] [".".toList] = .ok ⟨[⟨"", ["a.tsx"]⟩], []⟩ ∧
      ∀ set, files store root [".tsx".toList] [] [".".toList, long] ≠ .ok set := by
  intro store root long
  have hdirectory : store.isDirectory root = true := by decide +kernel
  refine ⟨hdirectory, by decide +kernel, fun set hset => ?_⟩
  have hanswer := (exists_files _ _ (by decide) hdirectory).1 ⟨set, hset⟩
  have hkept := hanswer.resolve_left (by decide +kernel) long (by simp)
  have htarget : includeTarget root long = ⟨"/", ["w", String.ofList long]⟩ := by decide +kernel
  have habsent : store.entry? ["w", String.ofList long] = none := by decide +kernel
  have hdots : ".." ∉ ["w", String.ofList long] := by decide +kernel
  have hname : store.LongName ["w"] (String.ofList long) :=
    ⟨(Store.isDirectory_iff (by decide)).1 hdirectory, habsent, by decide +kernel⟩
  refine hkept (.long (by decide +kernel) ?_)
  rw [htarget]
  refine ⟨?_, fun e he => ?_, Or.inr ⟨["w"], String.ofList long, [], rfl, hname⟩⟩
  · rw [Path.hasNull, List.any_cons, List.any_cons, @String.toList_ofList long]
    decide +kernel
  · obtain ⟨place, hplace, hentry, -⟩ := Store.find_eq_ok.1 he
    rw [Store.follow_plain hdots hplace, List.nil_append, habsent] at hentry
    cases hentry

end Project

end Phrasebook
