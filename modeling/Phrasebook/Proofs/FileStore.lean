import Phrasebook.Patch
import Phrasebook.Proofs.CodePoint
import Phrasebook.Proofs.Outcome
import Phrasebook.Proofs.Tree

/-!
Replacing a file. The text goes through a temporary file, but whatever happens on the way the
store ends up in one of two states: as it was, or with the new text in the place of the old one
and nothing else changed. A patch writes once and at its end, so the same holds of patches.
-/

namespace Phrasebook

open Text

namespace Store

/-! ### Places -/

theorem branch_root_place (s : Store) {parts : List String} (hne : parts ≠ []) (e : Entry) :
    .branch (s.place parts e).root = Tree.graft e parts (.branch s.root) := by
  cases parts with
  | nil => exact absurd rfl hne
  | cons name rest => rfl

theorem place_place (s : Store) {parts : List String} (hne : parts ≠ []) (first second : Entry) :
    (s.place parts first).place parts second = s.place parts second := by
  rw [place, branch_root_place s hne, Tree.graft_graft]
  rfl

theorem entry?_place (s : Store) {parts : List String} (hne : parts ≠ []) (e : Entry) :
    Store.entry? (s.place parts e) parts = some e := by
  rw [Store.entry?, branch_root_place s hne, Tree.get?_graft]

/-- What stands at a place: nothing, a directory, or a file or link with its content. -/
def contentAt (s : Store) (parts : List String) : Option (Option Content) :=
  (s.entry? parts).map Tree.face

section

variable {s : Store} {directory : List String} {cs : Table String Entry}

theorem entry?_concat_of (hdir : s.entry? directory = some (.branch cs)) (name : String) :
    s.entry? (directory ++ [name]) = cs.get? name := by
  rw [entry?_concat, hdir]
  rfl

theorem remove_place (hdir : s.entry? directory = some (.branch cs)) {name : String}
    (hfree : s.entry? (directory ++ [name]) = none) (e : Entry) :
    (s.place (directory ++ [name]) e).remove (directory ++ [name]) = s := by
  rw [entry?_concat_of hdir] at hfree
  rw [remove, branch_root_place s (by simp), Tree.prune_graft hdir hfree]
  rfl

theorem contentAt_place (hdir : s.entry? directory = some (.branch cs)) {name : String}
    (hfile : ∀ ds, s.entry? (directory ++ [name]) ≠ some (.branch ds)) (c : Content)
    {other : List String} (hne : other ≠ directory ++ [name]) :
    (s.place (directory ++ [name]) (.leaf c)).contentAt other = s.contentAt other := by
  rw [entry?_concat_of hdir] at hfile
  rw [contentAt, entry?, branch_root_place s (by simp)]
  refine Tree.face_graft hdir (fun child hchild => ?_) c hne
  cases child with
  | leaf a => rfl
  | branch ds => exact absurd hchild (hfile ds)

/-- Where a file goes does not depend on a file that was put beside it. -/
theorem placeFor_place (hdir : s.entry? directory = some (.branch cs)) {scratch : String}
    (hfree : s.entry? (directory ++ [scratch]) = none) (c : Content) (name : Option String) :
    (s.place (directory ++ [scratch]) (.leaf c)).placeFor directory name =
      s.placeFor directory name := by
  have hnone : ∀ ds, s.entry? (directory ++ [scratch]) ≠ some (.branch ds) := by simp [hfree]
  unfold placeFor
  split
  · rfl
  · rfl
  · next name _ =>
    by_cases hname : name = scratch
    · subst hname
      rw [entry?_place s (by simp), hfree]
    · have hother : directory ++ [name] ≠ directory ++ [scratch] := by simpa using hname
      have hcontent := contentAt_place hdir hnone c hother
      simp only [contentAt] at hcontent
      cases hold : s.entry? (directory ++ [name]) with
      | none =>
          rw [hold, Option.map_none, Option.map_eq_none_iff] at hcontent
          rw [hcontent]
      | some e =>
          rw [hold] at hcontent
          obtain ⟨e', he', hface⟩ := Option.map_eq_some_iff.1 hcontent
          rw [he']
          cases e <;> cases e' <;> simp_all

end

/-! ### Writing -/

def replaced (s : Store) (p : Path) (text : Points) : Except WriteFault Store := do
  let directory ← (s.directoryOf p).mapError .store
  match text.toChars? with
  | none => throw .unencodable
  | some cs =>
      let parts ← (s.placeFor directory p.parts.getLast?).mapError .store
      return s.place parts (.leaf (.file (Utf8.encode cs)))

/-- A file can be put at a path that lies in a directory if one is there or the path leaves room for
a temporary file. -/
theorem directoryOf_eq_ok {s : Store} {p : Path} {directory : List String} :
    s.directoryOf p = .ok directory ↔
      s.follow [] p.parent.parts = .ok directory ∧
        (∃ cs, s.entry? directory = some (.branch cs)) ∧
        (s.entry? (directory ++ [String.ofList p.name]) = none → leavesRoom p = true) := by
  have hroom : s.roomFor p = .ok directory ↔ _ := bind_eq_ok
  rw [directoryOf, mapError_eq_ok, hroom]
  constructor
  · rintro ⟨here, hfollow, h⟩
    split at h
    · cases h
    · cases h
    · cases h
    · next cs hcs =>
      split at h
      · next hspace =>
        obtain rfl := Except.ok.inj h
        exact ⟨hfollow, ⟨cs, hcs⟩, fun hnone => by simpa [hnone] using hspace⟩
      · cases h
  · rintro ⟨hfollow, ⟨cs, hcs⟩, hspace⟩
    refine ⟨directory, hfollow, ?_⟩
    rw [hcs]
    refine if_pos ?_
    cases hentry : s.entry? (directory ++ [String.ofList p.name]) with
    | none => simp [hspace hentry]
    | some e => rfl

/-- Writing through a temporary file replaces the file at once, or leaves the store as it was. -/
theorem writeVia_eq (scratch : Scratch) (s : Store) (p : Path) (text : Points) :
    s.writeVia scratch p text =
      match s.replaced p text with
      | .ok after => (.ok (), after)
      | .error f => (.error f, s) := by
  unfold writeVia replaced
  cases hd : s.directoryOf p with
  | error f => rfl
  | ok directory =>
      obtain ⟨-, ⟨cs, hcs⟩, -⟩ := directoryOf_eq_ok.1 hd
      have hfree := scratch.free s directory (String.ofList p.name)
      cases ht : text.toChars? with
      | none =>
          simp only [mapError_ok, bind, Except.bind, throw, throwThe, MonadExceptOf.throw]
          rw [remove_place hcs hfree]
      | some chars =>
          simp only [mapError_ok, bind, Except.bind]
          rw [place_place s (by simp), rename, placeFor_place hcs hfree]
          cases s.placeFor directory p.parts.getLast? with
          | error f =>
              simp only [mapError_error, bind, Except.bind]
              rw [remove_place hcs hfree]
          | ok target =>
              simp only [mapError_ok, bind, Except.bind, pure, Except.pure,
                entry?_place s (List.append_ne_nil_of_right_ne_nil _ (List.cons_ne_nil _ _)),
                remove_place hcs hfree]

/-- One file has new content, and all else is as it was. -/
structure Replaced (s : Store) (p : Path) (bytes : Utf8.Bytes) (after : Store) : Prop where
  reads : after.read p = .ok bytes
  others : ∃ place, s.follow [] p.parts = .ok place ∧
    ∀ other, other ≠ place → after.contentAt other = s.contentAt other

theorem follow_append (s : Store) (here path rest : List String) :
    s.follow here (path ++ rest) = (s.follow here path).bind fun there => s.follow there rest := by
  induction path generalizing here with
  | nil => rfl
  | cons name path ih =>
      rw [List.cons_append, follow, follow]
      split
      · rfl
      · rfl
      · rfl
      · exact ih _

theorem parts_eq {p : Path} {name : String} (h : p.parts.getLast? = some name) :
    p.parts = p.parent.parts ++ [name] := by
  obtain ⟨front, hfront⟩ := List.getLast?_eq_some_iff.1 h
  simp [Path.parent, hfront]

theorem ofList_name {p : Path} {name : String} (h : p.parts.getLast? = some name) :
    String.ofList p.name = name := by
  rw [Path.name, h]
  exact String.ofList_toList

/-- Where a path leads, by the directory that it lies in. -/
theorem follow_eq {s : Store} {p : Path} {directory : List String} {cs : Table String Entry}
    (hfollow : s.follow [] p.parent.parts = .ok directory)
    (hdir : s.entry? directory = some (.branch cs)) {name : String}
    (hname : p.parts.getLast? = some name) :
    s.follow [] p.parts =
      .ok (if name = ".." then directory.dropLast else directory ++ [name]) := by
  rw [parts_eq hname, follow_append, hfollow]
  simp [Except.bind, follow, hdir]

theorem placeFor_ok {s : Store} {directory target : List String} {name : Option String}
    (h : s.placeFor directory name = .ok target) :
    ∃ n, name = some n ∧ n ≠ ".." ∧ target = directory ++ [n] ∧
      ∀ ds, s.entry? target ≠ some (.branch ds) := by
  unfold placeFor at h
  split at h
  · cases h
  · cases h
  · next n hn =>
    split at h
    · cases h
    · next hbranch =>
      obtain rfl := Except.ok.inj h
      exact ⟨n, rfl, fun hdots => hn (by rw [hdots]), rfl, hbranch⟩

/-- Going through directories does not depend on the files in them. -/
theorem follow_congr {s after : Store}
    (h : ∀ parts cs, s.entry? parts = some (.branch cs) →
      ∃ ds, after.entry? parts = some (.branch ds))
    {here path place : List String} (hfollow : s.follow here path = .ok place) :
    after.follow here path = .ok place := by
  induction path generalizing here with
  | nil => exact hfollow
  | cons name path ih =>
      rw [follow] at hfollow ⊢
      split at hfollow
      · cases hfollow
      · cases hfollow
      · cases hfollow
      · next cs hcs =>
        obtain ⟨ds, hds⟩ := h here cs hcs
        rw [hds]
        exact ih hfollow

theorem follow_ne_null (s : Store) (here names : List String) :
    s.follow here names ≠ .error .embeddedNull := by
  induction names generalizing here with
  | nil => exact nofun
  | cons name names ih =>
      rw [follow]
      split
      · unfold absence
        split <;> simp
      · simp
      · simp
      · exact ih _

/-- A null character is told of only where one stands. -/
theorem find_eq_null {s : Store} {p : Path} (h : s.find p = .error .embeddedNull) :
    p.hasNull = true := by
  have hlook : s.lookUp [] p.parts ≠ .error .embeddedNull := by
    unfold lookUp
    have hfollow := s.follow_ne_null [] p.parts
    cases hplace : s.follow [] p.parts with
    | error f => simpa [hplace, bind, Except.bind] using hfollow
    | ok place =>
        simp only [bind, Except.bind]
        split
        · unfold absence
          split <;> simp [throw, throwThe, MonadExceptOf.throw]
        · simp [throw, throwThe, MonadExceptOf.throw]
        · simp [pure, Except.pure]
  cases hfault : s.lookUp [] p.parts with
  | ok e =>
      rw [find, hfault] at h
      cases h
  | error f =>
      rw [find, hfault, mapError_error, Except.error.injEq, Fault.told] at h
      split at h
      · next hnull => exact hnull
      · split at h
        · cases h
        · rw [hfault, h] at hlook
          exact absurd rfl hlook

theorem hasNull_of_readText {s : Store} {p : Path}
    (h : s.readText p = .error (.store .embeddedNull)) : p.hasNull = true := by
  unfold readText read at h
  cases hfind : s.find p with
  | error f =>
      rw [hfind] at h
      refine find_eq_null (hfind.trans ?_)
      simpa [bind, Except.bind] using h
  | ok e =>
      rw [hfind] at h
      rcases e with (bytes | _) | cs
      · simp only [bind, Except.bind, pure, Except.pure] at h
        cases hdecode : Utf8.decode bytes <;> simp [hdecode] at h
      · simp [bind, Except.bind, throw, throwThe, MonadExceptOf.throw] at h
      · simp [bind, Except.bind, throw, throwThe, MonadExceptOf.throw] at h

/-- What is found at a path is what stands where the path leads. -/
theorem find_eq_ok {s : Store} {p : Path} {e : Entry} :
    s.find p = .ok e ↔ ∃ place, s.follow [] p.parts = .ok place ∧ s.entry? place = some e ∧
      e ≠ .leaf .dangling := by
  have hlookUp : s.lookUp [] p.parts = .ok e ↔ _ := bind_eq_ok
  rw [find, mapError_eq_ok, hlookUp]
  refine exists_congr fun place => and_congr_right fun _ => ?_
  constructor
  · intro h
    split at h
    · cases h
    · cases h
    · next found hdangling hentry =>
      obtain rfl := Except.ok.inj h
      exact ⟨hentry, hdangling⟩
  · rintro ⟨hentry, hdangling⟩
    rw [hentry]
    split
    · next hnone => cases hnone
    · next hlink => exact absurd (Option.some.inj hlink) hdangling
    · next found _ hfound => exact congrArg Except.ok (Option.some.inj hfound).symm

theorem read_of_follow {s : Store} {p : Path} {place : List String} {bytes : Utf8.Bytes}
    (hfollow : s.follow [] p.parts = .ok place)
    (hentry : s.entry? place = some (.leaf (.file bytes))) : s.read p = .ok bytes := by
  have hfind : s.find p = .ok (.leaf (.file bytes)) :=
    find_eq_ok.2 ⟨place, hfollow, hentry, by simp⟩
  rw [read, hfind]
  rfl

/-- A place where no directory is gets a file with these bytes, and all else stays as it is. -/
structure Fills (s : Store) (place : List String) (bytes : Utf8.Bytes) (after : Store) : Prop where
  free : ∀ cs, s.entry? place ≠ some (.branch cs)
  filled : after.entry? place = some (.leaf (.file bytes))
  others : ∀ other, other ≠ place → after.contentAt other = s.contentAt other

theorem contentAt_eq_directory {s : Store} {parts : List String} :
    s.contentAt parts = some none ↔ ∃ cs, s.entry? parts = some (.branch cs) := by
  rw [contentAt, Option.map_eq_some_iff]
  constructor
  · rintro ⟨e, he, hface⟩
    cases e with
    | leaf c => cases hface
    | branch cs => exact ⟨cs, he⟩
  · rintro ⟨cs, hcs⟩
    exact ⟨.branch cs, hcs, rfl⟩

theorem contentAt_eq_file {s : Store} {place : List String} {c : Content} :
    s.contentAt place = some (some c) ↔ s.entry? place = some (.leaf c) := by
  rw [contentAt, Option.map_eq_some_iff]
  constructor
  · rintro ⟨e, he, hface⟩
    cases e with
    | leaf d => rw [he, Option.some.inj hface]
    | branch cs => cases hface
  · intro he
    exact ⟨.leaf c, he, rfl⟩

/-- Directories stay where they are. -/
theorem Fills.directory {s after : Store} {place : List String} {bytes : Utf8.Bytes}
    (h : Fills s place bytes after) (parts : List String) :
    (∃ cs, s.entry? parts = some (.branch cs)) ↔ ∃ cs, after.entry? parts = some (.branch cs) := by
  by_cases hparts : parts = place
  · subst hparts
    refine iff_of_false (fun ⟨cs, hcs⟩ => h.free cs hcs) fun ⟨cs, hcs⟩ => ?_
    rw [h.filled] at hcs
    cases hcs
  · rw [← contentAt_eq_directory, ← contentAt_eq_directory, h.others parts hparts]

/-- So paths lead where they led. -/
theorem Fills.follow {s after : Store} {place : List String} {bytes : Utf8.Bytes}
    (h : Fills s place bytes after) {path found : List String} :
    s.follow [] path = .ok found ↔ after.follow [] path = .ok found :=
  ⟨follow_congr fun parts cs hcs => (h.directory parts).1 ⟨cs, hcs⟩,
    follow_congr fun parts cs hcs => (h.directory parts).2 ⟨cs, hcs⟩⟩

theorem fills_of_replaced {s after : Store} {p : Path} {text : Points}
    (h : s.replaced p text = .ok after) :
    ∃ chars place, text.toChars? = some chars ∧ s.follow [] p.parts = .ok place ∧
      (s.entry? place = none → leavesRoom p = true) ∧ Fills s place (Utf8.encode chars) after := by
  unfold replaced at h
  cases hd : s.directoryOf p with
  | error f => simp [hd, bind, Except.bind] at h
  | ok directory =>
      obtain ⟨hfollow, ⟨cs, hcs⟩, hroom⟩ := directoryOf_eq_ok.1 hd
      cases hchars : text.toChars? with
      | none =>
          simp [hd, hchars, bind, Except.bind, throw, throwThe,
            MonadExceptOf.throw] at h
      | some chars =>
      cases hp : s.placeFor directory p.parts.getLast? with
      | error f => simp [hd, hp, hchars, bind, Except.bind] at h
      | ok target =>
          obtain ⟨name, hname, hdots, rfl, hfile⟩ := placeFor_ok hp
          have hplace :
              s.place (directory ++ [name]) (.leaf (.file (Utf8.encode chars))) = after := by
            simpa [hd, hp, hchars, bind, Except.bind, pure, Except.pure] using h
          rw [ofList_name hname] at hroom
          refine ⟨chars, directory ++ [name], rfl, ?_, hroom, hfile, ?_, fun other hother => ?_⟩
          · rw [follow_eq hfollow hcs hname, if_neg hdots]
          · rw [← hplace, entry?_place s (by simp)]
          · rw [← hplace]
            exact contentAt_place hcs hfile _ hother

theorem replaced_spec {s after : Store} {p : Path} {text : Points}
    (h : s.replaced p text = .ok after) :
    ∃ chars, text.toChars? = some chars ∧ Replaced s p (Utf8.encode chars) after := by
  obtain ⟨chars, place, hchars, hleads, -, hfills⟩ := fills_of_replaced h
  exact ⟨chars, hchars, read_of_follow (hfills.follow.1 hleads) hfills.filled, place, hleads,
    hfills.others⟩

theorem file_of_read {s : Store} {p : Path} {bytes : Utf8.Bytes} (h : s.read p = .ok bytes) :
    ∃ place, s.follow [] p.parts = .ok place ∧ s.entry? place = some (.leaf (.file bytes)) := by
  obtain ⟨e, hfind, h⟩ := bind_eq_ok.1 h
  obtain ⟨place, hfollow, hentry, hdangling⟩ := find_eq_ok.1 hfind
  refine ⟨place, hfollow, hentry.trans ?_⟩
  rcases e with (bytes' | _) | cs
  · rw [Except.ok.inj h]
  · exact absurd rfl hdangling
  · cases h

/-- A place with no directory can be filled by each path that leads there and leaves room if the
place is new: such a path ends in a name, and in a directory. -/
theorem exists_replaced {s : Store} {p : Path} {place : List String}
    (hplace : s.follow [] p.parts = .ok place) (hfree : ∀ cs, s.entry? place ≠ some (.branch cs))
    (hroom : s.entry? place = none → leavesRoom p = true) (chars : List Char) :
    ∃ after, s.replaced p (.ofChars chars) = .ok after := by
  cases hname : p.parts.getLast? with
  | none =>
      rw [List.getLast?_eq_none_iff.1 hname] at hplace
      obtain rfl := Except.ok.inj hplace
      exact absurd rfl (hfree s.root)
  | some name =>
      have hsplit := hplace
      rw [parts_eq hname, follow_append] at hsplit
      cases hdirectory : s.follow [] p.parent.parts with
      | error f => simp [hdirectory, Except.bind] at hsplit
      | ok directory =>
          simp only [hdirectory, Except.bind, follow] at hsplit
          split at hsplit
          · cases hsplit
          · cases hsplit
          · cases hsplit
          · next cs hcs =>
            rw [follow_eq hdirectory hcs hname] at hplace
            obtain rfl := Except.ok.inj hplace
            by_cases hdots : name = ".."
            · -- double dots lead up to a directory
              exfalso
              rw [if_pos hdots] at hfree
              cases hlast : directory.getLast? with
              | none =>
                  rw [List.getLast?_eq_none_iff.1 hlast] at hfree
                  exact hfree s.root rfl
              | some last =>
                  obtain ⟨front, rfl⟩ := List.getLast?_eq_some_iff.1 hlast
                  obtain ⟨ds, hds⟩ := Tree.exists_branch_of_append hcs
                  rw [List.dropLast_concat] at hfree
                  exact hfree ds hds
            · rw [if_neg hdots] at hfree hroom
              have hof : s.directoryOf p = .ok directory := by
                refine directoryOf_eq_ok.2 ⟨hdirectory, ⟨cs, hcs⟩, ?_⟩
                rwa [ofList_name hname]
              have hput : s.placeFor directory (some name) = .ok (directory ++ [name]) := by
                unfold placeFor
                split
                · next hn => cases hn
                · next hn => exact absurd (Option.some.inj hn) hdots
                · next n _ hn =>
                  obtain rfl := Option.some.inj hn
                  split
                  · next ds hds => exact absurd hds (hfree ds)
                  · rfl
              exact ⟨s.place (directory ++ [name]) (.leaf (.file (Utf8.encode chars))), by
                simp [replaced, hof, hname, hput, Points.toChars?_ofChars, bind,
                  Except.bind, pure, Except.pure]⟩

/-- A file that can be read can be replaced. -/
theorem replaced_of_read {s : Store} {p : Path} {bytes : Utf8.Bytes} (h : s.read p = .ok bytes)
    (chars : List Char) : ∃ after, s.replaced p (.ofChars chars) = .ok after := by
  obtain ⟨place, hplace, hentry⟩ := file_of_read h
  exact exists_replaced hplace (by simp [hentry]) (by simp [hentry]) chars

end Store

namespace Patch

theorem path_of_renderText {parse : Source.Parser} {path : Path} {text call : List Char}
    {t : Target} {r : Rendering} (h : renderText parse path text t call = .ok r) :
    r.path = path := by
  unfold renderText at h
  split at h
  · cases h
  · obtain ⟨⟨edits, changed⟩, -, h⟩ := bind_eq_ok.1 h
    obtain ⟨after, -, h⟩ := bind_eq_ok.1 h
    obtain rfl := Except.ok.inj h
    rfl

/-- What a patch is worked out from. -/
structure Renders (parse : Source.Parser) (w : Workspace) (root : Option Path) (t : Target)
    (call text : List Char) (r : Rendering) : Prop where
  met : t.lacks? = none
  named : Call.render t.functionName (strip t.key) = .ok call
  placed : ∃ base, root.mapM w.expandHome = .ok base ∧ locateFile w base t.filePath = .ok r.path
  reads : w.store.readText r.path = .ok text
  renders : renderText parse r.path text t call = .ok r

theorem renders_of_renderBy {parse : Source.Parser} {w : Workspace} {root : Option Path}
    {t : Target} {r : Rendering} (h : renderBy parse w root t = .ok r) :
    ∃ call text, Renders parse w root t call text r := by
  unfold renderBy at h
  obtain ⟨base, hbase, h⟩ := bind_eq_ok.1 h
  split at h
  · cases h
  · next hmet =>
    obtain ⟨call, hcall, h⟩ := bind_eq_ok.1 h
    obtain ⟨path, hpath, h⟩ := bind_eq_ok.1 h
    split at h
    · cases h
    · cases h
    · next text htext =>
      obtain rfl := path_of_renderText h
      exact ⟨call, text, hmet, mapError_eq_ok.1 hcall, ⟨base, mapError_eq_ok.1 hbase, hpath⟩,
        htext, h⟩

/-- A patch is worked out from a file that can be read. -/
theorem read_of_render {w : Workspace} {root : Option Path} {t : Target} {r : Rendering}
    (h : render w root t = .ok r) : ∃ bytes, w.store.read r.path = .ok bytes := by
  obtain ⟨call, text, hrenders⟩ := renders_of_renderBy h
  have htext := hrenders.reads
  unfold Store.readText at htext
  split at htext
  · cases htext
  · next bytes hbytes => exact ⟨bytes, hbytes⟩

/-- What could be worked out is written. -/
theorem applyVia_of_render (scratch : Store.Scratch) {w : Workspace} {root : Option Path}
    {t : Target} {r : Rendering} (h : render w root t = .ok r) :
    ∃ store, applyVia scratch w root t = (.ok r, store) ∧
      w.store.Replaced r.path (Utf8.encode r.after) store := by
  obtain ⟨bytes, hbytes⟩ := read_of_render h
  obtain ⟨after, hafter⟩ := Store.replaced_of_read hbytes r.after
  obtain ⟨chars, hchars, hreplaced⟩ := Store.replaced_spec hafter
  rw [Points.toChars?_ofChars] at hchars
  obtain rfl := Option.some.inj hchars
  refine ⟨after, ?_, hreplaced⟩
  simp only [applyVia, h, Store.writeVia_eq, hafter]

/-- A patch is made as a whole or not at all. A write that fails, be it after the temporary file
was made, leaves the store as it was; so does a patch that fails. A patch that succeeds is the
one worked out beforehand, the file that it names holds its text, and all else is as it was; and
what could be worked out does succeed. -/
theorem applyVia_all_or_nothing (scratch : Store.Scratch) (w : Workspace) (root : Option Path)
    (t : Target) :
    (∀ path text,
      match w.store.writeVia scratch path text with
      | (.error _, store) => store = w.store
      | (.ok _, store) =>
          ∃ chars, text.toChars? = some chars ∧
            w.store.Replaced path (Utf8.encode chars) store) ∧
    match applyVia scratch w root t with
    | (.error f, store) => render w root t = .error f ∧ store = w.store
    | (.ok r, store) =>
        render w root t = .ok r ∧ w.store.Replaced r.path (Utf8.encode r.after) store := by
  constructor
  · intro path text
    rw [Store.writeVia_eq]
    cases h : w.store.replaced path text with
    | error f => rfl
    | ok after => exact Store.replaced_spec h
  · cases hr : render w root t with
    | error f =>
        rw [applyVia, hr]
        exact ⟨rfl, rfl⟩
    | ok r =>
        obtain ⟨store, happly, hreplaced⟩ := applyVia_of_render scratch hr
        rw [happly]
        exact ⟨rfl, hreplaced⟩

end Patch

end Phrasebook
