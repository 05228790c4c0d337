import Phrasebook.Command.Run
import Phrasebook.Proofs.FileSet
import Phrasebook.Proofs.PatchFault
import Phrasebook.Proofs.ScanReport

/-!
Exit codes. A command ends with one of three codes unless something stops it that it has no answer
for. Settings files can stop every command: by paths that are too long, by bytes that are no text,
or by a scalar that stands for nothing. A scan can be stopped by the names of its root and its
directories, and a patch by its paths and by the escapes of its file. All other failures have an
answer.
-/

namespace Phrasebook

open Text

/-! ### Settings -/

namespace Settings

def Garbled (store : Store) (path : Path) : Prop := ∃ f, store.readText path = .error (.notText f)

/-- A settings file is no text, or has a scalar that is written like something that does not
exist. -/
def Breaks (reader : Yaml.Reader) (store : Store) (path : Path) : Prop :=
  Garbled store path ∨ ∃ text why, store.readText path = .ok text ∧
    reader (feedLines text) = .error (.impossible why)

def Loads (reader : Yaml.Reader) (store : Store) (path : Path) : Prop :=
  ∃ layer, yamlLayer reader store path = .ok layer

/-- What keeps settings from being loaded without an answer. The files written in YAML are looked
for first. Then all files are read in order, and the first that does not load decides. -/
inductive Stuck (reader : Yaml.Reader) (w : Workspace) (directory : Path) : Prop
  | userPath (long : w.store.refuses (userFile w.home) = true)
  | projectPath (long : w.store.refuses (projectFile directory) = true)
  | user (breaks : Breaks reader w.store (userFile w.home))
  | project (user : Loads reader w.store (userFile w.home))
      (breaks : Breaks reader w.store (projectFile directory))
  | environment (user : Loads reader w.store (userFile w.home))
      (project : Loads reader w.store (projectFile directory))
      (breaks : w.store.refuses (envFile directory) = true ∨ Garbled w.store (envFile directory))

def LoadError.isUnanswered : LoadError → Bool
  | notText _ _ | notYaml _ (.impossible _) | refused _ => true
  | _ => false

variable {reader : Yaml.Reader}

theorem probe_unanswered {store : Store} {path : Path} :
    (∃ e, probe store path = .error e ∧ e.isUnanswered = true) ↔ store.refuses path = true := by
  unfold probe
  split
  · next h => exact iff_of_true ⟨_, rfl, rfl⟩ h
  · next h => exact iff_of_false (by simp) h

theorem probe_eq_ok {store : Store} {path : Path} (h : store.refuses path ≠ true) :
    probe store path = .ok () := if_neg h

theorem yamlLayer_unanswered {store : Store} {path : Path} :
    (∃ e, yamlLayer reader store path = .error e ∧ e.isUnanswered = true) ↔
      Breaks reader store path := by
  unfold yamlLayer Breaks Garbled
  cases store.readText path with
  | error f => cases f <;> simp [LoadError.isUnanswered]
  | ok text =>
    simp only [reduceCtorEq, exists_false, false_or, Except.ok.injEq]
    cases hload : reader (feedLines text) with
    | error f => cases f <;> simp [hload, LoadError.isUnanswered]
    | ok value =>
      refine iff_of_false ?_ (by simp [hload])
      rintro ⟨e, he, hunanswered⟩
      split at he
      · next hf => cases hf
      · cases he
      · cases he
      · obtain rfl := Except.error.inj he
        cases hunanswered

theorem envFileLayer_unanswered {store : Store} {environment : Environment} {path : Path} :
    (∃ e, envFileLayer store environment path = .error e ∧ e.isUnanswered = true) ↔
      Garbled store path := by
  unfold envFileLayer Garbled
  cases store.readText path with
  | error f => cases f <;> simp [LoadError.isUnanswered]
  | ok text => simp

/-- A step that fails ends a computation, and otherwise the next one decides. -/
theorem bind_unanswered {α β : Type} {x : Except LoadError α} {next : α → Except LoadError β} :
    (∃ e, (x >>= next) = .error e ∧ e.isUnanswered = true) ↔
      (∃ e, x = .error e ∧ e.isUnanswered = true) ∨
        ∃ a, x = .ok a ∧ ∃ e, next a = .error e ∧ e.isUnanswered = true := by
  cases x <;> simp [bind, Except.bind]

theorem layers_unanswered {w : Workspace} {environment : Environment} {directory : Path} :
    (∃ e, layers reader w environment directory = .error e ∧ e.isUnanswered = true) ↔
      Stuck reader w directory := by
  have hlast {given : Layered} :
      ¬ ∃ e, (pure given : Except LoadError Layered) = .error e ∧ e.isUnanswered = true := by
    rintro ⟨e, he, -⟩
    cases he
  simp only [layers, bind_unanswered, probe_unanswered, yamlLayer_unanswered,
    envFileLayer_unanswered, hlast, and_false, exists_false, or_false]
  constructor
  · rintro (h | ⟨-, -, h | ⟨-, -, h | ⟨user, huser, h | ⟨project, hproject, h | ⟨-, -, h⟩⟩⟩⟩⟩)
    · exact .userPath h
    · exact .projectPath h
    · exact .user h
    · exact .project ⟨user, huser⟩ h
    · exact .environment ⟨user, huser⟩ ⟨project, hproject⟩ (Or.inl h)
    · exact .environment ⟨user, huser⟩ ⟨project, hproject⟩ (Or.inr h)
  · intro h
    by_cases huserPath : w.store.refuses (userFile w.home) = true
    · exact Or.inl huserPath
    refine Or.inr ⟨(), probe_eq_ok huserPath, ?_⟩
    by_cases hprojectPath : w.store.refuses (projectFile directory) = true
    · exact Or.inl hprojectPath
    refine Or.inr ⟨(), probe_eq_ok hprojectPath, ?_⟩
    cases h with
    | userPath long => exact absurd long huserPath
    | projectPath long => exact absurd long hprojectPath
    | user breaks => exact Or.inl breaks
    | project user breaks =>
      obtain ⟨user, huser⟩ := user
      exact Or.inr ⟨user, huser, Or.inl breaks⟩
    | environment user project breaks =>
      obtain ⟨user, huser⟩ := user
      obtain ⟨project, hproject⟩ := project
      refine Or.inr ⟨user, huser, Or.inr ⟨project, hproject, ?_⟩⟩
      by_cases henvPath : w.store.refuses (envFile directory) = true
      · exact Or.inl henvPath
      · exact Or.inr ⟨(), probe_eq_ok henvPath, breaks.resolve_left henvPath⟩

/-- Settings that are not valid always have an answer. -/
theorem load_unanswered {w : Workspace} {environment : Environment} {directory : Path} :
    (∃ e, load reader w environment directory = .error e ∧ e.isUnanswered = true) ↔
      Stuck reader w directory := by
  rw [load, bind_unanswered, layers_unanswered]
  refine or_iff_left ?_
  rintro ⟨given, -, e, he, hunanswered⟩
  cases hvalid : validate given with
  | error issues =>
    rw [hvalid] at he
    obtain rfl := Except.error.inj he
    cases hunanswered
  | ok settings => rw [hvalid] at he; cases he

end Settings

/-! ### Commands -/

namespace Command

def Outcome.Answers (o : Outcome) : Prop := ∃ code ≤ 2, o.code? = some code

namespace Outcome

@[simp] theorem answers_refused (r : Refusal) : (refused r).Answers := by
  cases r with
  | unclear => exact ⟨2, by decide, rfl⟩
  | help => exact ⟨0, by decide, rfl⟩

@[simp] theorem not_answers_crashed (c : Crash) : ¬ (crashed c).Answers := by
  rintro ⟨code, -, h⟩
  cases h

@[simp] theorem answers_said (code : Nat) (text : List Char) :
    (said code text).Answers ↔ code ≤ 2 := by
  constructor
  · rintro ⟨code', hle, h⟩
    obtain rfl := Option.some.inj h
    exact hle
  · intro hle
    exact ⟨code, hle, rfl⟩

@[simp] theorem answers_scanned (r : Project.Report) (v : View) : (scanned r v).Answers :=
  ⟨0, by decide, rfl⟩

end Outcome

theorem settingsFailure_answers (e : Settings.LoadError) :
    (settingsFailure e).Answers ↔ ¬ e.isUnanswered = true := by
  unfold settingsFailure
  split <;> simp_all [Settings.LoadError.isUnanswered]

/-! ### Patches -/

theorem patchFailure_answers (c : WrapCommand) (f : Patch.Fault) :
    (patchFailure c f).Answers ↔ ¬ f.isUnanswered = true := by
  unfold patchFailure
  simp only
  split <;> simp_all [Patch.Fault.isUnanswered]

/-- The kinds of import that a command can ask for all exist. -/
theorem binding_wrapTarget (s : Settings) (c : WrapCommand) (k : Target.UnknownKind) :
    (wrapTarget s c).binding ≠ .error k := by
  have hkind (kind : ImportKind) :
      ImportKind.ofString? (String.ofList kind.name.toList) = some kind := by
    cases kind <;> rfl
  unfold Target.binding
  simp only [wrapTarget, hkind]
  split <;> simp

def wrapRoot (c : WrapCommand) : Option Path := (nonEmpty? c.projectRoot).map Path.ofChars

section Wrap

variable {w : Workspace} {s : Settings} {c : WrapCommand}

theorem runWrap_of_error {f : Patch.Fault}
    (h : Patch.render w (wrapRoot c) (wrapTarget s c) = .error f) :
    (runWrap w s c).1 = patchFailure c f := by
  have happly : Patch.apply w (wrapRoot c) (wrapTarget s c) = (.error f, w.store) := by
    rw [Patch.apply, Patch.applyVia, h]
  unfold wrapRoot at h happly
  simp only [runWrap, h, happly]
  split <;> rfl

/-- What could be worked out is written, so nothing can fail any more. -/
theorem runWrap_of_ok {r : Patch.Rendering}
    (h : Patch.render w (wrapRoot c) (wrapTarget s c) = .ok r) :
    ∃ text, (runWrap w s c).1 = .said 0 text := by
  obtain ⟨store, happly, -⟩ := Patch.applyVia_of_render .longest h
  unfold wrapRoot at h happly
  simp only [runWrap, Patch.apply, h, happly]
  split
  · exact ⟨_, rfl⟩
  · exact ⟨_, rfl⟩

theorem runWrap_answers :
    (runWrap w s c).1.Answers ↔ ¬ Patch.Breaks w (wrapRoot c) (wrapTarget s c) := by
  rw [← Patch.render_unanswered (binding_wrapTarget s c)]
  cases h : Patch.render w (wrapRoot c) (wrapTarget s c) with
  | error f =>
    rw [runWrap_of_error h, patchFailure_answers]
    simp
  | ok r =>
    obtain ⟨text, htext⟩ := runWrap_of_ok h
    simp [htext]

end Wrap

/-! ### Scans -/

/-- What a scan without an answer comes upon: a root in an unknown home, a name that cannot be that
of the root, or, in a root that is a directory, an entry of the include list that is refused. -/
inductive ScanBreaks (w : Workspace) (root : Path) (o : Project.Options) : Prop
  | home {u : Workspace.UnknownHome} (unknown : w.expandHome root = .error u)
  | null {home : Path} (known : w.expandHome root = .ok home)
      (held : (w.working.join home).hasNull = true)
  | long {home base : Path} (known : w.expandHome root = .ok home)
      (located : w.locate home = .ok base) (refuses : w.store.refuses base = true)
  | entry {home base : Path} {x : List Char} (known : w.expandHome root = .ok home)
      (located : w.locate home = .ok base) (directory : w.store.isDirectory base = true)
      (wanted : Project.extensions o.extensions ≠ []) (listed : x ∈ o.directories)
      (refused : Project.Refused w.store base x)

theorem locate_cases (w : Workspace) (p : Path) :
    ((w.working.join p).hasNull = true ∧ w.locate p = .error .embeddedNull) ∨
      (w.working.join p).hasNull = false ∧ w.locate p = .ok (w.resolve p) := by
  unfold Workspace.locate Workspace.named
  cases (w.working.join p).hasNull with
  | true => exact Or.inl ⟨rfl, rfl⟩
  | false => exact Or.inr ⟨rfl, rfl⟩

theorem scanBreaks_iff {w : Workspace} {root home base : Path} {o : Project.Options}
    (hhome : w.expandHome root = .ok home) (hbase : w.locate home = .ok base) :
    ScanBreaks w root o ↔ w.store.refuses base = true ∨
      w.store.isDirectory base = true ∧ Project.extensions o.extensions ≠ [] ∧
        ∃ x ∈ o.directories, Project.Refused w.store base x := by
  constructor
  · intro hbreaks
    cases hbreaks with
    | home unknown => rw [hhome] at unknown; cases unknown
    | null known held =>
      obtain rfl := Except.ok.inj (hhome.symm.trans known)
      rcases locate_cases w home with ⟨-, hlocate⟩ | ⟨hspeakable, -⟩
      · rw [hbase] at hlocate; cases hlocate
      · rw [held] at hspeakable; cases hspeakable
    | long known located refuses =>
      obtain rfl := Except.ok.inj (hhome.symm.trans known)
      obtain rfl := Except.ok.inj (hbase.symm.trans located)
      exact Or.inl refuses
    | entry known located directory wanted listed refused =>
      obtain rfl := Except.ok.inj (hhome.symm.trans known)
      obtain rfl := Except.ok.inj (hbase.symm.trans located)
      exact Or.inr ⟨directory, wanted, _, listed, refused⟩
  · rintro (hrefuses | ⟨hdirectory, hwanted, x, hx, hrefused⟩)
    · exact .long hhome hbase hrefuses
    · exact .entry hhome hbase hdirectory hwanted hx hrefused

/-- Where the files of a project cannot be told, only the lack of a root has an answer. -/
theorem files_answered {store : Store} {root : Path} (hroot : ".." ∉ root.parts)
    (raw ignore directories : List (List Char)) :
    ((∃ set, Project.files store root raw ignore directories = .ok set) ∨
        ∃ p, Project.files store root raw ignore directories = .error (.noRoot p)) ↔
      ¬ (store.refuses root = true ∨
        store.isDirectory root = true ∧ Project.extensions raw ≠ [] ∧
          ∃ x ∈ directories, Project.Refused store root x) := by
  cases hrefuses : store.refuses root with
  | true => simp [Project.files, hrefuses]
  | false =>
    cases hdirectory : store.isDirectory root with
    | false => simp [Project.files, hrefuses, hdirectory]
    | true =>
      have hnoRoot : ¬ ∃ p, Project.files store root raw ignore directories =
          .error (.noRoot p) := by
        rintro ⟨p, hp⟩
        obtain ⟨f, d, h⟩ := Project.refused_of_files_eq_error hroot hdirectory hp
        cases h
      rw [or_iff_left hnoRoot, Project.exists_files raw ignore hroot hdirectory]
      by_cases hnone : Project.extensions raw = [] <;> simp [hnone]

theorem runScan_answers (w : Workspace) (s : Settings) (c : ScanCommand) :
    (runScan w s c).Answers ↔ ¬ ScanBreaks w (.ofChars c.root) (scanOptions s c) := by
  simp only [runScan, Project.scan, Project.scanVia_eq]
  generalize scanOptions s c = o
  cases hhome : w.expandHome (.ofChars c.root) with
  | error u => exact iff_of_false (Outcome.not_answers_crashed (.home u)) (not_not.2 (.home hhome))
  | ok home =>
    simp only [mapError_ok, bind, Except.bind]
    rcases locate_cases w home with ⟨hheld, hlocate⟩ | ⟨-, hlocate⟩
    · rw [hlocate]
      exact iff_of_false (Outcome.not_answers_crashed _) (not_not.2 (.null hhome hheld))
    · have hroot : ".." ∉ (w.resolve home).parts := Path.not_mem_normalParts _
      rw [scanBreaks_iff hhome hlocate, ← files_answered hroot o.extensions o.ignore, hlocate]
      simp only [mapError_ok]
      cases Project.files w.store (w.resolve home) o.extensions o.ignore o.directories with
      | error e => cases e <;> simp
      | ok set =>
        -- Whether the scan is given up does not matter: both outcomes are answers.
        simp only [mapError_ok]
        cases Project.gather (Project.scanFile w.store (w.resolve home) o.functions)
            (.start o.maxFailures) [] set.files with
        | error a => simp
        | ok found => simp [pure, Except.pure]

/-! ### All commands -/

inductive Crashes (x : Context) : Command → Prop
  | settings {c : Command}
      (stuck : Settings.Stuck x.reader x.workspace x.workspace.working) : Crashes x c
  | scan {c : ScanCommand} {loaded : Settings.Loaded}
      (loads : x.settings = .ok loaded)
      (breaks : ScanBreaks x.workspace (.ofChars c.root) (scanOptions loaded.settings c)) :
      Crashes x (.scan c)
  | wrap {c : WrapCommand} {loaded : Settings.Loaded}
      (loads : x.settings = .ok loaded)
      (breaks : Patch.Breaks x.workspace (wrapRoot c) (wrapTarget loaded.settings c)) :
      Crashes x (.wrap c)

section Run

variable {x : Context}

theorem crashes_of_error {e : Settings.LoadError}
    (h : x.settings = .error e) (c : Command) :
    Crashes x c ↔ e.isUnanswered = true := by
  have hstuck := @Settings.load_unanswered x.reader x.workspace x.environment x.workspace.working
  rw [show Settings.load _ _ _ _ = .error e from h] at hstuck
  constructor
  · intro hcrashes
    cases hcrashes with
    | settings stuck =>
      obtain ⟨e', he', hunanswered⟩ := hstuck.2 stuck
      rwa [← Except.error.inj he'] at hunanswered
    | scan loads => rw [h] at loads; cases loads
    | wrap loads => rw [h] at loads; cases loads
  · intro hunanswered
    exact .settings (hstuck.1 ⟨e, rfl, hunanswered⟩)

/-- Once the settings are loaded, only a scan or a patch can be stopped. -/
theorem crashes_of_ok {loaded : Settings.Loaded}
    (h : x.settings = .ok loaded) (c : Command) :
    Crashes x c ↔
      (∃ c', c = .scan c' ∧
        ScanBreaks x.workspace (.ofChars c'.root) (scanOptions loaded.settings c')) ∨
      ∃ c', c = .wrap c' ∧
        Patch.Breaks x.workspace (wrapRoot c') (wrapTarget loaded.settings c') := by
  constructor
  · intro hcrashes
    cases hcrashes with
    | settings stuck =>
      obtain ⟨e, he, -⟩ := Settings.load_unanswered.2 stuck
      cases he.symm.trans h
    | scan loads breaks =>
      obtain rfl := Except.ok.inj (h.symm.trans loads)
      exact Or.inl ⟨_, rfl, breaks⟩
    | wrap loads breaks =>
      obtain rfl := Except.ok.inj (h.symm.trans loads)
      exact Or.inr ⟨_, rfl, breaks⟩
  · rintro (⟨c', rfl, breaks⟩ | ⟨c', rfl, breaks⟩)
    · exact .scan h breaks
    · exact .wrap h breaks

theorem run_answers (x : Context) (c : Command) : (run x c).1.Answers ↔ ¬ Crashes x c := by
  unfold run
  simp only
  cases hload : x.settings with
  | error e => rw [settingsFailure_answers, crashes_of_error hload]
  | ok loaded =>
    rw [crashes_of_ok hload]
    cases c with
    | config => simp
    | suggest c => simp [runSuggest]
    | scan c => simp [runScan_answers]
    | wrap c => simp [runWrap_answers]

end Run

/-- Whatever reads the settings files, the program ends with the code 0, 1 or 2 exactly if the
arguments call for no command that is stopped without an answer: by settings that are no text or
hold an impossible scalar, by a path that names an unknown home, holds a null character or is too
long, or by an escape above the last code point in the way of a patch. -/
theorem execute_answers (x : Context) (arguments : List (List Char)) :
    (∃ code ≤ 2, (execute x arguments).1.code? = some code) ↔
      ∀ c, read arguments = .ok c → ¬ Crashes x c := by
  show (execute x arguments).1.Answers ↔ _
  unfold execute
  cases read arguments with
  | error r => simp
  | ok c => simp [run_answers]

def Stops (name : String) (bytes : Utf8.Bytes) (words : List String) : Prop :=
  (read (words.map String.toList)).isOk = true ∧
    (execute ⟨⟨Store.empty.place ["w", name] (.leaf (.file bytes)), ⟨"/", ["w"]⟩, ⟨"/", ["h"]⟩, []⟩,
      Yaml.load, [], 0⟩ (words.map String.toList)).1.code? = none

instance (name : String) (bytes : Utf8.Bytes) (words : List String) :
    Decidable (Stops name bytes words) :=
  inferInstanceAs (Decidable (_ ∧ _))

/-- A settings file of one byte that is no text stops every command, an escape above the last code
point stops a patch of a literal behind it, and a null character in the name of its root stops a
scan. -/
theorem execute_stopped :
    Stops "localeforge.yaml" [0xff] ["config"] ∧
      Stops "a.ts" (Utf8.encode "f(\"\\u\x7b110000\x7d\", \"Hi\")".toList)
        ["wrap", "a.ts", "--line=1", "--column=16", "--text=Hi", "--key=k"] ∧
      Stops "a.ts" [] ["scan", "\x00"] := by
  decide +kernel

end Command

end Phrasebook
