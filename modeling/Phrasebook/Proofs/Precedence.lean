import Mathlib.Data.List.Basic
import Phrasebook.Proofs.Outcome
import Phrasebook.Settings.Layers

/-!
Which layer a setting comes from. The layers are laid one over the other, each with spellings of
its own; what is looked up in the end is the last spelling in the highest layer that has one, for
the value as for the source. So a value that a higher layer goes over may be anything.
-/

namespace Phrasebook

/-! ### Last entries -/

namespace Table

variable {κ β : Type} [DecidableEq κ]

def last? (name : κ) (entries : List (κ × β)) : Option β :=
  (entries.filter fun e => e.1 = name).getLast?.map Prod.snd

theorem last?_cons (name : κ) (e : κ × β) (entries : List (κ × β)) :
    last? name (e :: entries) =
      (last? name entries).or (if e.1 = name then some e.2 else none) := by
  unfold last?
  by_cases h : e.1 = name
  · rw [List.filter_cons_of_pos (by simpa using h), List.getLast?_cons, if_pos h]
    cases (entries.filter fun e => e.1 = name).getLast? <;> rfl
  · rw [List.filter_cons_of_neg (by simpa using h), if_neg h, Option.or_none]

/-- Of the entries put into a table, the last of a name counts. -/
theorem get?_merge (t : Table κ β) (entries : List (κ × β)) (name : κ) :
    (t.merge entries).get? name = (last? name entries).or (t.get? name) := by
  induction entries generalizing t with
  | nil => rfl
  | cons e entries ih =>
      rw [merge, List.foldl_cons, ← merge, ih, last?_cons, Option.or_assoc]
      by_cases h : e.1 = name
      · rw [if_pos h, ← h, get?_put_self, Option.some_or]
      · rw [if_neg h, get?_put_of_ne _ _ (Ne.symm h), Option.none_or]

theorem nodup_keys_merge {t : Table κ β} (h : (t.map Prod.fst).Nodup) (entries : List (κ × β)) :
    ((t.merge entries).map Prod.fst).Nodup := by
  induction entries generalizing t with
  | nil => exact h
  | cons e entries ih => exact ih (nodup_keys_put h e.1 e.2)

/-- In a table no name comes twice, so its last entry is its only one. -/
theorem last?_eq_get? {t : Table κ β} (h : (t.map Prod.fst).Nodup) (name : κ) :
    last? name t = t.get? name := by
  induction t with
  | nil => rfl
  | cons e rest ih =>
      rw [List.map_cons, List.nodup_cons] at h
      rw [last?_cons, ih h.2, get?]
      by_cases hname : e.1 = name
      · rw [if_pos hname, if_pos hname, get?_eq_none (hname ▸ h.1), Option.none_or]
      · rw [if_neg hname, if_neg hname, Option.or_none]

theorem last?_map {γ : Type} (f : β → γ) (name : κ) (entries : List (κ × β)) :
    last? name (entries.map fun e => (e.1, f e.2)) = (last? name entries).map f := by
  induction entries with
  | nil => rfl
  | cons e entries ih =>
      rw [List.map_cons, last?_cons, last?_cons, ih, Option.map_or]
      by_cases h : e.1 = name <;> simp [h]

theorem get?_map {γ : Type} (f : β → γ) (name : κ) (t : Table κ β) :
    Table.get? name (t.map fun e => (e.1, f e.2)) = (t.get? name).map f := by
  induction t with
  | nil => rfl
  | cons e rest ih =>
      rw [List.map_cons, get?, get?, ih]
      by_cases h : e.1 = name <;> simp [h]

theorem isSome_get? {t : Table κ β} {name : κ} :
    (t.get? name).isSome = true ↔ name ∈ t.map Prod.fst := by
  induction t with
  | nil => simp [get?]
  | cons e rest ih =>
      rw [get?, List.map_cons, List.mem_cons, ← ih]
      by_cases h : e.1 = name
      · simp [h]
      · simp [h, Ne.symm h]

end Table

namespace Settings

open Text Yaml

/-! ### Layers -/

/-- One place that settings come from, as it is once it is parsed: the entries of a file, or
variables, some without a text. -/
inductive Layer where
  | file (path : Path) (entries : List (Scalar × Value))
  | environment (source : Source) (given : Table (List Char) (Option (List Char)))

def settingOfKey (key : Scalar) : String :=
  String.ofList (key.spelling.map fun c => if c == '-' then '_' else c)

namespace Layer

def source : Layer → Source
  | file path _ => .file path
  | environment source _ => source

def definition? (e : List Char × Option (List Char)) : Option (String × Value) :=
  match settingOf? e.1, e.2 with
  | some setting, some text => some (setting, .scalar (.text text))
  | _, _ => none

/-- What a layer defines, in the order in which it is gone through: that of the file, or that of
the names of the variables. -/
def definitions : Layer → List (String × Value)
  | file _ entries => entries.map fun e => (settingOfKey e.1, e.2)
  | environment _ given =>
      (given.mergeSort fun a b => !decide (b.1 < a.1)).filterMap definition?

end Layer

def fileEntries (reader : Yaml.Reader) (store : Store) (path : Path) :
    Except LoadError (List (Scalar × Value)) :=
  match store.readText path with
  | .error (.store _) => .ok []
  | .error (.notText f) => .error (.notText path f)
  | .ok text =>
      match reader (feedLines text) with
      | .error f => .error (.notYaml path f)
      | .ok (.scalar .null) => .ok []
      | .ok (.mapping entries) => .ok entries
      | .ok _ => .error (.notMapping path)

def fileVariables (store : Store) (environment : Environment) (path : Path) :
    Except LoadError (Table (List Char) (Option (List Char))) :=
  match store.readText path with
  | .error (.store _) => .ok []
  | .error (.notText f) => .error (.notText path f)
  | .ok text => .ok (EnvFile.load environment (feedLines text))

def parsed (reader : Yaml.Reader) (w : Workspace) (environment : Environment) (directory : Path) :
    Except LoadError (List Layer) := do
  probe w.store (userFile w.home)
  probe w.store (projectFile directory)
  let user ← fileEntries reader w.store (userFile w.home)
  let project ← fileEntries reader w.store (projectFile directory)
  probe w.store (envFile directory)
  let set ← fileVariables w.store environment (envFile directory)
  return [.environment .process (environment.map fun (n, v) => (n, some v)),
    .environment .envFile set, .file (projectFile directory) project, .file (userFile w.home) user]

def laid : List Layer → Layered
  | [] => []
  | l :: lower => overlay (laid lower) l.source (Table.merge [] l.definitions)

def combine (ls : List Layer) : Except LoadError Loaded := do
  let settings ← (validate (laid ls)).mapError .invalid
  return ⟨settings, (laid ls).map fun (name, _, source) => (name, source)⟩

theorem yamlLayer_eq (reader : Yaml.Reader) (store : Store) (path : Path) :
    yamlLayer reader store path = (fileEntries reader store path).map fun es =>
      Table.merge [] (Layer.file path es).definitions := by
  unfold yamlLayer fileEntries
  rcases store.readText path with (f | f) | text
  · rfl
  · rfl
  · dsimp only
    rcases reader (feedLines text) with f | ((_ | _) | _ | entries)
    all_goals try rfl
    simp only [Layer.definitions, Table.merge, Except.map, List.foldl_map]
    rfl

theorem environmentLayer_eq (source : Source) (given : Table (List Char) (Option (List Char))) :
    environmentLayer given = Table.merge [] (Layer.environment source given).definitions := by
  rw [environmentLayer, Layer.definitions, Table.merge, List.foldl_filterMap]
  congr 1
  funext t ⟨name, value⟩
  simp only [Layer.definition?]
  cases settingOf? name with
  | none => rfl
  | some setting => cases value <;> rfl

theorem envFileLayer_eq (store : Store) (environment : Environment) (path : Path) :
    envFileLayer store environment path = (fileVariables store environment path).map fun vs =>
      Table.merge [] (Layer.environment .envFile vs).definitions := by
  unfold envFileLayer fileVariables
  rcases store.readText path with (f | f) | text
  · simp [Except.map, Layer.definitions, Table.merge]
  · rfl
  · exact congrArg Except.ok (environmentLayer_eq .envFile _)

theorem load_eq (reader : Yaml.Reader) (w : Workspace) (environment : Environment)
    (directory : Path) :
    load reader w environment directory = parsed reader w environment directory >>= combine := by
  simp only [load, layers, parsed, yamlLayer_eq, envFileLayer_eq,
    environmentLayer_eq .process]
  cases probe w.store (userFile w.home) with
  | error f => rfl
  | ok _ =>
      cases probe w.store (projectFile directory) with
      | error f => rfl
      | ok _ =>
          cases fileEntries reader w.store (userFile w.home) with
          | error f => rfl
          | ok user =>
              cases fileEntries reader w.store (projectFile directory) with
              | error f => rfl
              | ok project =>
                  cases probe w.store (envFile directory) with
                  | error f => rfl
                  | ok _ => cases fileVariables w.store environment (envFile directory) <;> rfl

/-! ### The highest definition -/

/-- The value that the highest of some layers gives a setting, and its source; the highest layer
comes first, and in a layer the last definition counts. -/
def highest? (name : String) (ls : List Layer) : Option (Value × Source) :=
  ls.findSome? fun l => (Table.last? name l.definitions).map fun v => (v, l.source)

theorem highest?_cons (name : String) (l : Layer) (lower : List Layer) :
    highest? name (l :: lower) =
      ((Table.last? name l.definitions).map fun v => (v, l.source)).or (highest? name lower) := by
  rw [highest?, List.findSome?_cons, ← highest?]
  cases Table.last? name l.definitions <;> rfl

theorem highest?_append (name : String) (above lower : List Layer) :
    highest? name (above ++ lower) = (highest? name above).or (highest? name lower) := by
  rw [highest?, List.findSome?_append, ← highest?, ← highest?]

theorem get?_overlay (given : Layered) (source : Source) (entries : List (String × Value))
    (name : String) :
    (overlay given source (Table.merge [] entries)).get? name =
      ((Table.last? name entries).map fun v => (v, source)).or (given.get? name) := by
  have hnodup : ((Table.merge [] entries).map Prod.fst).Nodup :=
    Table.nodup_keys_merge (t := []) List.nodup_nil entries
  rw [overlay, Table.get?_merge, Table.last?_map (fun v => (v, source)),
    Table.last?_eq_get? hnodup, Table.get?_merge]
  cases Table.last? name entries <;> rfl

/-- What is found in layers that are laid one over the other is what the highest tells. -/
theorem get?_laid (ls : List Layer) (name : String) : (laid ls).get? name = highest? name ls := by
  induction ls with
  | nil => rfl
  | cons l lower ih => rw [laid, get?_overlay, ih, highest?_cons]

/-! ### Validation by lookups -/

/-- A setting of a type of its own: where it is kept and how a value of it is checked. -/
structure Setting where
  type : Type
  name : String
  value : Settings → type
  check : Value → Except (List (Option Nat × Problem)) type
  /-- A value that is refused has a problem. -/
  tells : ∀ v, check v ≠ .error []

/-- What is given of a setting is what the settings have: a value that passes its check, and
without one the default. -/
def Setting.Reads (x : Setting) (given : Option Value) (s : Settings) : Prop :=
  match given with
  | none => x.value s = x.value .default
  | some v => x.check v = .ok (x.value s)

theorem asTexts_tells (v : Value) : asTexts v ≠ .error [] := by
  unfold asTexts
  split
  · simp
  · split
    · simp
    · next problems h _ =>
      intro hnil
      rw [Except.error.injEq, List.map_eq_nil_iff] at hnil
      exact h hnil
  · simp

theorem single_tells {α : Type} (check : Value → Except Problem α) (v : Value) :
    single check v ≠ .error [] := by
  unfold single
  cases check v <;> simp

/-- All settings, in the order of their names in `fieldNames`. -/
def schema : List Setting :=
  [⟨_, "extensions", extensions, asTexts, asTexts_tells⟩,
    ⟨_, "ignore", ignore, asTexts, asTexts_tells⟩,
    ⟨_, "include_dirs", includeDirs, asTexts, asTexts_tells⟩,
    ⟨_, "translation_functions", translationFunctions, asTexts, asTexts_tells⟩,
    ⟨_, "namespace", keyNamespace, single asText, single_tells _⟩,
    ⟨_, "function_name", functionName, single asText, single_tells _⟩,
    ⟨_, "import_source", importSource, single (optional asText), single_tells _⟩,
    ⟨_, "import_kind", importKind, single asKind, single_tells _⟩,
    ⟨_, "workers", workers, single asCount, single_tells _⟩,
    ⟨_, "max_failures", maxFailures, single (optional asCount), single_tells _⟩]

theorem field_eq_iff (x : Setting) (given : Layered) (s : Settings) :
    field given x.name (x.value .default) x.check = (x.value s, []) ↔
      x.Reads ((given.get? x.name).map Prod.fst) s := by
  unfold field Setting.Reads
  cases given.get? x.name with
  | none => simp [eq_comm]
  | some e =>
      obtain ⟨v, source⟩ := e
      cases hcheck : x.check v with
      | ok a => simp [hcheck]
      | error problems =>
          have hproblems : problems ≠ [] := fun h => x.tells v (h ▸ hcheck)
          simp [hcheck, hproblems]

theorem unknownIssues_eq_nil {given : Layered} :
    unknownIssues given = [] ↔ ∀ name, (given.get? name).isSome → name ∈ fieldNames := by
  simp only [unknownIssues, List.map_eq_nil_iff, List.filter_eq_nil_iff, Table.isSome_get?,
    List.forall_mem_map]
  simp

/-- Validation looks values up, and minds no name but those of settings. -/
theorem validate_eq_ok {given : Layered} {s : Settings} :
    validate given = .ok s ↔
      (∀ x ∈ schema, x.Reads ((given.get? x.name).map Prod.fst) s) ∧
        ∀ name, (given.get? name).isSome → name ∈ fieldNames := by
  simp only [← field_eq_iff, ← unknownIssues_eq_nil, schema, List.forall_mem_cons]
  rw [validate]
  simp only [List.isEmpty_iff, List.append_eq_nil_iff]
  constructor
  · intro h
    split at h
    · next hissues =>
      obtain ⟨⟨⟨⟨⟨⟨⟨⟨⟨⟨h1, h2⟩, h3⟩, h4⟩, h5⟩, h6⟩, h7⟩, h8⟩, h9⟩, h10⟩, hunknown⟩ := hissues
      rw [← Except.ok.inj h]
      refine ⟨⟨?_, ?_, ?_, ?_, ?_, ?_, ?_, ?_, ?_, ?_, by simp⟩, hunknown⟩
      all_goals exact Prod.ext rfl (by assumption)
    · cases h
  · rintro ⟨⟨h1, h2, h3, h4, h5, h6, h7, h8, h9, h10, -⟩, hunknown⟩
    simp only [h1, h2, h3, h4, h5, h6, h7, h8, h9, h10, hunknown, and_self, if_true]

theorem combine_eq_ok {ls : List Layer} {loaded : Loaded} :
    combine ls = .ok loaded ↔ validate (laid ls) = .ok loaded.settings ∧
      loaded.sources = (laid ls).map fun e => (e.1, e.2.2) := by
  rw [combine, bind_eq_ok]
  constructor
  · rintro ⟨s, hs, h⟩
    rw [← Except.ok.inj h]
    exact ⟨mapError_eq_ok.1 hs, rfl⟩
  · rintro ⟨hs, hsources⟩
    refine ⟨loaded.settings, mapError_eq_ok.2 hs, ?_⟩
    rw [← hsources]
    rfl

theorem get?_sources {ls : List Layer} {loaded : Loaded} (h : combine ls = .ok loaded)
    (name : String) : loaded.sources.get? name = (highest? name ls).map Prod.snd := by
  rw [(combine_eq_ok.1 h).2, Table.get?_map, get?_laid]

/-! ### Values that are gone over -/

/-- Entries of the same names in the same order, with the same values for names of some kind. -/
def AgreeOn {κ β : Type} (P : κ → Prop) : List (κ × β) → List (κ × β) → Prop :=
  List.Forall₂ fun e e' => e.1 = e'.1 ∧ (P e.1 → e.2 = e'.2)

/-- A layer with other values for one setting, whatever they are. -/
inductive Layer.Replaces (name : String) : Layer → Layer → Prop
  | file (path : Path) {entries entries' : List (Scalar × Value)} :
      AgreeOn (settingOfKey · ≠ name) entries entries' →
      Replaces name (.file path entries) (.file path entries')
  | environment (source : Source) {given given' : Table (List Char) (Option (List Char))} :
      AgreeOn (settingOf? · ≠ some name) given given' →
      Replaces name (.environment source given) (.environment source given')

theorem Layer.Replaces.source {name : String} {l l' : Layer} (h : l.Replaces name l') :
    l'.source = l.source := by
  cases h <;> rfl

/-- Both come from one list, with two values for each name. -/
theorem AgreeOn.exists_both {κ β : Type} {P : κ → Prop} {entries entries' : List (κ × β)}
    (h : AgreeOn P entries entries') :
    ∃ both : List (κ × β × β), entries = both.map (fun e => (e.1, e.2.1)) ∧
      entries' = both.map (fun e => (e.1, e.2.2)) ∧ ∀ e ∈ both, P e.1 → e.2.1 = e.2.2 := by
  induction h with
  | nil => exact ⟨[], rfl, rfl, by simp⟩
  | @cons e e' _ _ hhead _ ih =>
      obtain ⟨both, rfl, rfl, hboth⟩ := ih
      refine ⟨(e.1, e.2, e'.2) :: both, rfl, ?_, ?_⟩
      · rw [List.map_cons, hhead.1]
      · rintro b (_ | ⟨_, hb⟩)
        · exact hhead.2
        · exact hboth b hb

theorem last?_filterMap_congr {α : Type} {name : String} {as : List α}
    {f g : α → Option (String × Value)}
    (h : ∀ a ∈ as, (f a).filter (·.1 = name) = (g a).filter (·.1 = name)) :
    Table.last? name (as.filterMap f) = Table.last? name (as.filterMap g) := by
  rw [Table.last?, Table.last?, List.filter_filterMap, List.filter_filterMap,
    List.filterMap_congr h]

/-- Other settings keep their definitions. -/
theorem Layer.Replaces.last? {name other : String} {l l' : Layer} (h : l.Replaces name l')
    (hother : other ≠ name) :
    Table.last? other l'.definitions = Table.last? other l.definitions := by
  cases h with
  | file path h =>
      obtain ⟨both, rfl, rfl, hboth⟩ := h.exists_both
      simp only [definitions, List.map_map]
      simp only [← List.filterMap_eq_map]
      refine last?_filterMap_congr fun e he => ?_
      by_cases hname : settingOfKey e.1 = name
      · simp [Option.filter, hname, hother.symm]
      · simp [hboth e he hname]
  | environment source h =>
      obtain ⟨both, rfl, rfl, hboth⟩ := h.exists_both
      -- the order is that of the names, so both are sorted as the pairs are
      have hsort (f : List Char × Option (List Char) × Option (List Char) → Option (List Char)) :
          (both.map fun e => (e.1, f e)).mergeSort (fun a b => !decide (b.1 < a.1)) =
            (both.mergeSort fun a b => !decide (b.1 < a.1)).map fun e => (e.1, f e) :=
        (List.map_mergeSort fun _ _ _ _ => by rfl).symm
      simp only [definitions, hsort, List.filterMap_map]
      refine last?_filterMap_congr fun e he => ?_
      have he : e ∈ both := List.mem_mergeSort.1 he
      by_cases hname : settingOf? e.1 = some name
      · cases h1 : e.2.1 <;> cases h2 : e.2.2 <;>
          simp [Option.filter, definition?, hname, h1, h2, hother.symm]
      · simp [definition?, hboth e he hname]

theorem highest?_replaced {name other : String} {lower lower' : List Layer}
    (h : List.Forall₂ (Layer.Replaces name) lower lower') (hother : other ≠ name) :
    highest? other lower' = highest? other lower := by
  induction h with
  | nil => rfl
  | cons hl _ ih => rw [highest?_cons, highest?_cons, ih, hl.last? hother, hl.source]

/-- Layers below one that gives a setting may have any values for it. -/
theorem highest?_covered {name : String} {above lower lower' : List Layer}
    (habove : (highest? name above).isSome) (h : List.Forall₂ (Layer.Replaces name) lower lower')
    (other : String) : highest? other (above ++ lower') = highest? other (above ++ lower) := by
  rw [highest?_append, highest?_append]
  by_cases hother : other = name
  · subst hother
    obtain ⟨e, he⟩ := Option.isSome_iff_exists.1 habove
    rw [he, Option.some_or, Option.some_or]
  · rw [highest?_replaced h hother]

/-- Layers in which the same is found come to the same settings and sources. -/
theorem combine_congr {ls ls' : List Layer} {loaded : Loaded} (h : combine ls = .ok loaded)
    (hsame : ∀ name, highest? name ls' = highest? name ls) :
    ∃ loaded', combine ls' = .ok loaded' ∧ loaded'.settings = loaded.settings ∧
      ∀ name, loaded'.sources.get? name = loaded.sources.get? name := by
  have hvalid : validate (laid ls') = .ok loaded.settings := by
    have hvalid := (combine_eq_ok.1 h).1
    rw [validate_eq_ok] at hvalid ⊢
    simp only [get?_laid, hsame] at hvalid ⊢
    exact hvalid
  have h' : combine ls' = .ok ⟨loaded.settings, (laid ls').map fun e => (e.1, e.2.2)⟩ :=
    combine_eq_ok.2 ⟨hvalid, rfl⟩
  refine ⟨_, h', rfl, fun name => ?_⟩
  rw [get?_sources h', get?_sources h, hsame]

/-- When settings load, each has the value and the source of the highest layer that defines it: the
environment of the process, then the environment file, the file of the project and that of the
user; it has the default where no layer does. The values for a setting in the layers below one that
defines it, valid or not, change nothing. -/
theorem load_precedence {reader : Yaml.Reader} {w : Workspace} {environment : Environment}
    {directory : Path} {loaded : Loaded} (h : load reader w environment directory = .ok loaded) :
    ∃ ls, parsed reader w environment directory = .ok ls ∧
      (∀ x ∈ schema, x.Reads ((highest? x.name ls).map Prod.fst) loaded.settings ∧
        loaded.sourceOf x.name = ((highest? x.name ls).map Prod.snd).getD .default) ∧
      ∀ name above lower lower', ls = above ++ lower → (highest? name above).isSome →
        List.Forall₂ (Layer.Replaces name) lower lower' →
        ∃ loaded', combine (above ++ lower') = .ok loaded' ∧
          loaded'.settings = loaded.settings ∧
          ∀ other, loaded'.sources.get? other = loaded.sources.get? other := by
  rw [load_eq, bind_eq_ok] at h
  obtain ⟨ls, hls, h⟩ := h
  refine ⟨ls, hls, fun x hx => ⟨?_, ?_⟩, ?_⟩
  · rw [← get?_laid]
    exact (validate_eq_ok.1 (combine_eq_ok.1 h).1).1 x hx
  · rw [Loaded.sourceOf, get?_sources h]
  · rintro name above lower lower' rfl habove hreplaced
    exact combine_congr h (highest?_covered habove hreplaced)

/-- A number that is none stands in the file of the user, below one in the environment; the file of
the project spells a setting twice. -/
theorem load_precedence_levels :
    let file (text : String) : Entry := .leaf (.file (Utf8.encode text.toList))
    let store := ((Store.empty.place ["h", ".config", "localeforge", "config.yaml"]
      (file "workers: none")).place ["w", "localeforge.yaml"]
      (file "function-name: tr\nfunction_name: say")).place ["w", ".env"]
      (file "LOCALEFORGE_NAMESPACE=app")
    let w : Workspace := ⟨store, ⟨"/", ["w"]⟩, ⟨"/", ["h"]⟩, []⟩
    let set : Environment := [("LOCALEFORGE_WORKERS".toList, "8".toList)]
    ∃ loaded, load Yaml.load w set w.working = .ok loaded ∧
      loaded.sourceOf "workers" = .process ∧ loaded.sourceOf "namespace" = .envFile ∧
      loaded.sourceOf "function_name" = .file ⟨"/", ["w", "localeforge.yaml"]⟩ ∧
      loaded.sourceOf "ignore" = .default ∧ loaded.settings.functionName = "say".toList := by
  intro file store w set
  obtain ⟨loaded, hloaded⟩ : ∃ loaded, load Yaml.load w set w.working = .ok loaded := by
    have hok : (load Yaml.load w set w.working).toOption.isSome := by decide +kernel
    cases hload : load Yaml.load w set w.working with
    | error f => simp [hload, Except.toOption] at hok
    | ok loaded => exact ⟨loaded, rfl⟩
  obtain ⟨ls, hls, hhighest, -⟩ := load_precedence hloaded
  have hsources : (parsed Yaml.load w set w.working).toOption.map
      (fun ls => fieldNames.map fun name => (highest? name ls).map Prod.snd) =
        some [none, none, none, none, some .envFile,
          some (.file ⟨"/", ["w", "localeforge.yaml"]⟩), none, none, some .process, none] := by
    decide +kernel
  have hvalue : (parsed Yaml.load w set w.working).toOption.bind
      (fun ls => (highest? "function_name" ls).bind fun e => (single asText e.1).toOption) =
        some "say".toList := by
    decide +kernel
  rw [hls] at hsources hvalue
  simp only [Except.toOption, Option.map_some, fieldNames, List.map_cons, List.map_nil,
    Option.some.injEq, List.cons.injEq] at hsources
  obtain ⟨-, hignore, -, -, hnamespace, hname, -, -, hworkers, -⟩ := hsources
  simp only [schema, List.forall_mem_cons] at hhighest
  obtain ⟨-, h2, -, -, h5, h6, -, -, h9, -⟩ := hhighest
  refine ⟨loaded, hloaded, ?_, ?_, ?_, ?_, ?_⟩
  · rw [h9.2, hworkers]
    rfl
  · rw [h5.2, hnamespace]
    rfl
  · rw [h6.2, hname]
    rfl
  · rw [h2.2, hignore]
    rfl
  · cases hdefined : highest? "function_name" ls with
    | none => simp [hdefined] at hname
    | some e =>
        have hreads := h6.1
        simp only [hdefined, Option.map_some, Setting.Reads] at hreads
        simpa [Except.toOption, hdefined, hreads] using hvalue

end Settings

end Phrasebook
