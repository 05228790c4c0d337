import Phrasebook.Proofs.Decoding
import Phrasebook.Proofs.Reapply

/-!
Patches without an answer. A patch that fails says why in a way that a user understands, unless it
names the home directory of somebody unknown, or comes upon an escape that is above the last code
point: in a literal in front of the one that is meant, or in the module of an import when one is
asked for. The edits themselves never fail.
-/

namespace Phrasebook

open Text Source

namespace Source

namespace Node

def Overflows (n : Node) : Prop := ∃ number ∈ n.escapes, 0x110000 ≤ number

theorem literalValue_error (n : Node) : (∃ f, n.literalValue = .error f) ↔ n.Overflows := by
  have hdecodes := @decodesTo_literalValue (fun _ => True) (fun _ => trivial) n
  have hnames (number : Nat) : Escape.Names (fun _ => True) number ↔ number < 0x110000 :=
    ⟨fun h => h.1, fun h => ⟨h, trivial⟩⟩
  simp only [Escape.DecodesTo, implies_true, and_true, hnames] at hdecodes
  rw [exists_error, hdecodes]
  simp [Overflows]

end Node

namespace Document

variable {d : Document}

/-! ### Literals that do not decode -/

theorem literalAt_of_isLiteral {n : Node} (h : n.isLiteral = true) :
    ∃ make, d.literalAt n = some (n.literalValue.map make) := by
  fun_cases Node.isLiteral n with
  | case1 start raw => exact ⟨fun _ => d.runLiteral start raw, rfl⟩
  | case2 place start raw =>
    have hplace : place ≠ .specifier := by simpa [Node.isLiteral] using h
    exact ⟨_, by rw [literalAt, if_neg hplace]; rfl⟩
  | case3 start raw => exact ⟨_, rfl⟩
  | case4 span parts =>
    have hparts : ¬ parts.any Node.isSubstitution = true := by simpa [Node.isLiteral] using h
    exact ⟨_, by rw [literalAt, if_neg hparts]; rfl⟩
  | case5 n hrun hstring hkeyword htemplate =>
    simp [Node.isLiteral] at h

/-- A literal does not decode exactly if an escape in it is above the last code point. -/
theorem literalAt_error {n : Node} :
    (∃ f, d.literalAt n = some (.error f)) ↔ n.isLiteral = true ∧ n.Overflows := by
  rw [← n.literalValue_error]
  constructor
  · rintro ⟨f, hf⟩
    have hliteral := (literalAt_cases hf).1
    obtain ⟨make, hmake⟩ := literalAt_of_isLiteral (d := d) hliteral
    refine ⟨hliteral, ?_⟩
    rw [hmake, Option.some.injEq] at hf
    cases hvalue : n.literalValue with
    | error f => exact ⟨f, rfl⟩
    | ok value => rw [hvalue] at hf; cases hf
  · rintro ⟨hliteral, f, hf⟩
    obtain ⟨make, hmake⟩ := literalAt_of_isLiteral (d := d) hliteral
    exact ⟨f, by rw [hmake, hf]; rfl⟩

/-- A list begins with what has a property, up to something that has another one. -/
theorem exists_split_cons {α : Type} {P B : α → Prop} {a : α} {l : List α} :
    (∃ front x back, a :: l = front ++ x :: back ∧ B x ∧ ∀ p ∈ front, P p) ↔
      B a ∨ P a ∧ ∃ front x back, l = front ++ x :: back ∧ B x ∧ ∀ p ∈ front, P p := by
  constructor
  · rintro ⟨front, x, back, hl, hx, hfront⟩
    cases front with
    | nil =>
      obtain ⟨rfl, -⟩ := List.cons.inj hl
      exact Or.inl hx
    | cons b front =>
      obtain ⟨rfl, rfl⟩ := List.cons.inj hl
      rw [List.forall_mem_cons] at hfront
      exact Or.inr ⟨hfront.1, front, x, back, rfl, hx, hfront.2⟩
  · rintro (ha | ⟨ha, front, x, back, rfl, hx, hfront⟩)
    · exact ⟨[], a, l, rfl, ha, by simp⟩
    · exact ⟨a :: front, x, back, rfl, hx, by simpa [ha] using hfront⟩

def Passes (d : Document) (text : List Char) (line column : Int) (n : Node) : Prop :=
  ∀ l, d.literalAt n = some (.ok l) → fits text line column l = false

theorem search_error {text : List Char} {line column : Int} (ns : List Node) :
    (∃ f, locate.search text line column (ns.filterMap d.literalAt) = .error f) ↔
      ∃ front n back, ns = front ++ n :: back ∧ (n.isLiteral = true ∧ n.Overflows) ∧
        ∀ p ∈ front, d.Passes text line column p := by
  induction ns with
  | nil => simp [locate.search]
  | cons n ns ih =>
    rw [exists_split_cons, ← ih, ← literalAt_error (d := d)]
    -- A node that is no literal is passed over, and otherwise the first literal decides.
    cases hn : d.literalAt n with
    | none =>
      have hpasses : d.Passes text line column n := fun l hl => by simp [hn] at hl
      simp [List.filterMap_cons_none hn, hpasses]
    | some r =>
      rw [List.filterMap_cons_some hn]
      cases r with
      | error f => simp [locate.search]
      | ok l =>
        have hpasses : d.Passes text line column n ↔ fits text line column l = false := by
          simp [Passes, hn]
        rw [locate.search, hpasses]
        unfold fits
        split
        · next hfits => simp [hfits]
        · next hfits =>
          rw [Bool.not_eq_true] at hfits
          simp [hfits]

/-- A literal that does not decode stands in front of the one that is looked for. -/
def Obscures (d : Document) (text : List Char) (line column : Int) : Prop :=
  ∃ front n back, d.all = front ++ n :: back ∧ (n.isLiteral = true ∧ n.Overflows) ∧
    ∀ p ∈ front, d.Passes text line column p

theorem locate_error {text : List Char} {line column : Int} :
    (∃ f, d.locate text line column = .error f) ↔ d.Obscures text line column :=
  search_error d.all

/-! ### Imports that do not decode -/

def importsValues (source : List Char) (n : Node) : Except Escape.Fault Bool :=
  match n.isBranch (.importDeclaration false), n.importSource? with
  | true, some module =>
      (Node.stringValue .specifier module.text).map (· == Points.ofChars source)
  | _, _ => .ok false

theorem importsFrom_eq (source : List Char) :
    d.importsFrom source = d.nodes.filterM (importsValues source) := rfl

def ImportOverflows (n : Node) : Prop :=
  n.isBranch (.importDeclaration false) = true ∧ ∃ module ∈ n.importSource?, module.Overflows

theorem importsValues_error {source : List Char} {n : Node} :
    (∃ f, importsValues source n = .error f) ↔ ImportOverflows n := by
  unfold importsValues ImportOverflows
  split
  · next module hbranch hmodule =>
    have hvalue : Node.stringValue .specifier module.text = module.literalValue := by
      have hleaf : module.isLeaf (.string .specifier) = true := List.find?_some hmodule
      cases module with
      | leaf kind start raw =>
        obtain rfl : kind = .string .specifier := by simpa [Node.isLeaf] using hleaf
        rfl
      | run start raw => cases hleaf
      | branch kind span children => cases hleaf
    have herror := module.literalValue_error
    rw [hvalue, hbranch, hmodule]
    cases hdecode : module.literalValue with
    | error f => simpa [hdecode, Except.map] using herror
    | ok value => simpa [hdecode, Except.map] using herror
  · next hother =>
    refine iff_of_false (by simp) ?_
    rintro ⟨hbranch, module, hmodule, -⟩
    exact hother module hbranch hmodule

/-- An import cannot be made sure of exactly if the module of another one does not decode. -/
theorem ensureImport_error {b : ImportBinding} :
    (∃ f, d.ensureImport b = .error f) ↔ ∃ n ∈ d.nodes, ImportOverflows n := by
  have hfilter : (∃ f, d.importsFrom b.source = .error f) ↔ ∃ n ∈ d.nodes, ImportOverflows n := by
    rw [importsFrom_eq, exists_error, exists_filterM_eq_ok]
    simp only [not_forall, ← exists_error, importsValues_error, exists_prop]
  rw [← hfilter, ensureImport]
  cases d.importsFrom b.source with
  | error f => simp [bind, Except.bind]
  | ok matching =>
    refine iff_of_false ?_ (by simp)
    rintro ⟨f, hf⟩
    simp only [bind, Except.bind] at hf
    repeat' split at hf
    all_goals cases hf

/-! ### Edits -/

/-- The edits of a patch can be made. -/
theorem Laid.apply_ofLiteral (hd : d.Laid) {n : Node} (hn : n ∈ d.all) {l : Literal}
    (hl : d.literalAt n = some (.ok l)) (call : List Char) (found : Option Edit)
    (hfound : ∀ e ∈ found, d.Admits e) :
    ∃ result, Edit.apply d.text (Edit.ofLiteral l call :: found.toList) = .ok result ∧
      Edit.Spliced 0 (Edit.ordered (Edit.ofLiteral l call :: found.toList)) d.text result := by
  obtain ⟨hstart, hstop, hle, hge, hfits⟩ := hd.fits_ofLiteral hn hl call
  have hapart : ∀ e ∈ found, Edit.Disjoint (Edit.ofLiteral l call) e := by
    intro e he
    have hclear := (hfound e he).clear n hn (literalAt_ok hl).1
    unfold Edit.Disjoint
    omega
  have hall : ∀ e ∈ Edit.ofLiteral l call :: found.toList, e.Fits d.text := by
    rw [List.forall_mem_cons]
    exact ⟨hfits, fun e he => (hfound e (Option.mem_toList.1 he)).fits⟩
  have hpairs : (Edit.ofLiteral l call :: found.toList).Pairwise Edit.Disjoint := by
    rw [List.pairwise_cons]
    refine ⟨fun e he => hapart e (Option.mem_toList.1 he), ?_⟩
    cases found <;> simp
  exact Edit.apply_of_disjoint hall hpairs

end Document

end Source

/-! ### Patches -/

namespace Patch

def Fault.isUnanswered : Fault → Bool
  | home _ | escape _ | importKind _ | edit .notText | unwritable .unencodable _
  | unreadable .embeddedNull _ | unwritable (.store .embeddedNull) _ => true
  | _ => false

/-- A document cannot be patched for its escapes: one stands in the way of the literal, or, once
that is found, of the import. -/
def Blocked (d : Document) (t : Target) : Prop :=
  d.Obscures t.text t.line t.column ∨
    (∃ l, d.locate t.text t.line t.column = .ok (some l)) ∧
      (∃ b, t.binding = .ok (some b)) ∧ ∃ n ∈ d.nodes, Document.ImportOverflows n

/-- The file that a path means, seen from a project or else from the working directory. -/
def fullPath (w : Workspace) (base : Option Path) (p : Path) : Path :=
  if p.isAbsolute then p else w.working.join ((base.map (·.join p)).getD p)

inductive Breaks (w : Workspace) (root : Option Path) (t : Target) : Prop
  /-- The root of the project is in an unknown home. -/
  | root {p : Path} {u : Workspace.UnknownHome} (given : root = some p)
      (unknown : w.expandHome p = .error u)
  /-- The file is in an unknown home. -/
  | file {base : Option Path} {call : List Char} {u : Workspace.UnknownHome}
      (based : root.mapM w.expandHome = .ok base) (met : t.lacks? = none)
      (named : Call.render t.functionName (strip t.key) = .ok call)
      (unknown : w.expandHome (.ofChars t.filePath) = .error u)
  /-- A null character stands in the path of the file. -/
  | null {base : Option Path} {call : List Char} {p : Path}
      (based : root.mapM w.expandHome = .ok base) (met : t.lacks? = none)
      (named : Call.render t.functionName (strip t.key) = .ok call)
      (known : w.expandHome (.ofChars t.filePath) = .ok p)
      (held : (fullPath w base p).hasNull = true)
  /-- An escape in the file is in the way. -/
  | escape {base : Option Path} {call text : List Char} {path : Path} {d : Document}
      (based : root.mapM w.expandHome = .ok base) (met : t.lacks? = none)
      (named : Call.render t.functionName (strip t.key) = .ok call)
      (placed : locateFile w base t.filePath = .ok path)
      (reads : w.store.readText path = .ok text)
      (parses : Document.parse (some path.toString) text = .ok d) (blocked : Blocked d t)

variable {w : Workspace} {root : Option Path} {t : Target} {path : Path} {text call : List Char}

theorem edits_unanswered {d : Document} (hkind : ∀ k, t.binding ≠ .error k) :
    (∃ f, edits d path t call = .error f ∧ f.isUnanswered = true) ↔ Blocked d t := by
  have hobscures : (∃ f, d.locate t.text t.line t.column = .error f) ↔
      d.Obscures t.text t.line t.column := Document.locate_error
  unfold edits Blocked
  rw [← hobscures]
  cases d.locate t.text t.line t.column with
  | error f => simp [bind, Except.bind, Fault.isUnanswered]
  | ok located =>
    cases located with
    | none => simp [bind, Except.bind, Fault.isUnanswered, throw, throwThe, MonadExceptOf.throw]
    | some l =>
      cases hbinding : t.binding with
      | error k => exact absurd hbinding (hkind k)
      | ok asked =>
        cases asked with
        | none => simp [bind, Except.bind, pure, Except.pure]
        | some b =>
          rw [← Document.ensureImport_error (b := b)]
          cases hfound : d.ensureImport b with
          | error f => simp [bind, Except.bind, hfound, Fault.isUnanswered]
          | ok found => cases found <;> simp [bind, Except.bind, pure, Except.pure, hfound]

/-- What is edited, once the edits are known, can always be made. -/
theorem apply_of_edits {d : Document} {es : List Edit} {changed : Bool}
    (hparse : Document.parse (some path.toString) text = .ok d)
    (h : edits d path t call = .ok (es, changed)) : ∃ after, Edit.apply text es = .ok after := by
  have hd := Document.laid_of_parse hparse
  rw [← Document.text_of_parse hparse]
  unfold edits at h
  obtain ⟨located, hlocated, h⟩ := bind_eq_ok.1 h
  split at h
  · cases h
  · next l =>
    obtain ⟨n, hn, hl⟩ := Document.mem_literals_of_locate (mapError_eq_ok.1 hlocated)
    obtain ⟨asked, -, h⟩ := bind_eq_ok.1 h
    obtain ⟨alone, halone, -⟩ := hd.apply_ofLiteral hn hl call none (by simp)
    split at h
    · obtain ⟨rfl, -⟩ := Prod.mk.inj (Except.ok.inj h)
      exact ⟨alone, halone⟩
    · next b =>
      obtain ⟨found, hfound, h⟩ := bind_eq_ok.1 h
      split at h
      · obtain ⟨rfl, -⟩ := Prod.mk.inj (Except.ok.inj h)
        exact ⟨alone, halone⟩
      · next e =>
        obtain ⟨rfl, -⟩ := Prod.mk.inj (Except.ok.inj h)
        have hadmits := hd.admits_ensureImport (mapError_eq_ok.1 hfound)
        obtain ⟨both, hboth, -⟩ := hd.apply_ofLiteral hn hl call (some e) (by simpa using hadmits)
        exact ⟨both, hboth⟩

theorem renderText_unanswered (hkind : ∀ k, t.binding ≠ .error k) :
    (∃ f, renderText Document.parse path text t call = .error f ∧ f.isUnanswered = true) ↔
      ∃ d, Document.parse (some path.toString) text = .ok d ∧ Blocked d t := by
  unfold renderText
  cases hparse : Document.parse (some path.toString) text with
  | error e => simp [Fault.isUnanswered, throw, throwThe, MonadExceptOf.throw]
  | ok d =>
    have hedits : (∃ f, edits d path t call = .error f ∧ f.isUnanswered = true) ↔ Blocked d t :=
      edits_unanswered hkind
    simp only [Except.ok.injEq, exists_eq_left']
    rw [← hedits]
    cases h : edits d path t call with
    | error f => simp [bind, Except.bind]
    | ok es =>
      obtain ⟨after, hafter⟩ := apply_of_edits hparse h
      simp [bind, Except.bind, hafter, pure, Except.pure]

theorem mapM_expandHome_error {u : Workspace.UnknownHome}
    (h : root.mapM w.expandHome = .error u) : ∃ p, root = some p ∧ w.expandHome p = .error u := by
  cases root with
  | none => cases h
  | some p =>
    refine ⟨p, rfl, ?_⟩
    rw [Option.mapM_some] at h
    cases hp : w.expandHome p with
    | error v => rw [hp] at h; cases h; rfl
    | ok q => rw [hp] at h; cases h

/-- A file is found by its path unless a null character stands in that. -/
theorem locateFile_cases {file : List Char} {p : Path} (h : w.expandHome (.ofChars file) = .ok p)
    (base : Option Path) :
    ((fullPath w base p).hasNull = true ∧
        locateFile w base file = .error (.unreadable .embeddedNull p)) ∨
      (fullPath w base p).hasNull = false ∧
        ∃ path, locateFile w base file = .ok path ∧ path.hasNull = false := by
  unfold locateFile fullPath
  simp only [h, mapError_ok, bind, Except.bind]
  split
  · unfold Workspace.named
    split
    · next hnull => exact Or.inl ⟨hnull, rfl⟩
    · next hnull =>
      have hspeakable : p.hasNull = false := by simpa using hnull
      exact Or.inr ⟨hspeakable, p, rfl, hspeakable⟩
  · cases base <;>
    · simp only [Option.map_none, Option.map_some, Option.getD_none, Option.getD_some,
        Workspace.locate, Workspace.named]
      split
      · next hnull => exact Or.inl ⟨hnull, rfl⟩
      · next hnull =>
        have hspeakable := Bool.eq_false_iff.2 hnull
        exact Or.inr ⟨hspeakable, _, rfl, Path.hasNull_normalize hspeakable⟩

/-- A patch fails without an answer exactly if it comes upon an unknown home, a null character or an
escape. -/
theorem render_unanswered (hkind : ∀ k, t.binding ≠ .error k) :
    (∃ f, render w root t = .error f ∧ f.isUnanswered = true) ↔ Breaks w root t := by
  constructor
  · rintro ⟨f, hf, hunanswered⟩
    cases hbase : root.mapM w.expandHome with
    | error u =>
      obtain ⟨p, hroot, hp⟩ := mapM_expandHome_error hbase
      exact .root hroot hp
    | ok base =>
      -- The steps up to the text of the file either stop with an answer or go on.
      unfold render renderBy at hf
      rw [hbase] at hf
      simp only [mapError_ok, bind, Except.bind] at hf
      split at hf
      · obtain rfl := Except.error.inj hf
        cases hunanswered
      · next hmet =>
        cases hnamed : Call.render t.functionName (strip t.key) with
        | error e =>
          rw [hnamed] at hf
          obtain rfl := Except.error.inj hf
          cases hunanswered
        | ok call =>
          rw [hnamed] at hf
          cases hknown : w.expandHome (.ofChars t.filePath) with
          | error u => exact .file hbase hmet hnamed hknown
          | ok p =>
            rcases locateFile_cases hknown base with ⟨hheld, -⟩ | ⟨-, path, hplaced, hspeakable⟩
            · exact .null hbase hmet hnamed hknown hheld
            · rw [hplaced] at hf
              simp only [mapError_ok] at hf
              split at hf
              · next e hreads =>
                obtain rfl := Except.error.inj hf
                -- of the faults of a store only a null character has no answer
                cases e with
                | embeddedNull =>
                  rw [Store.hasNull_of_readText hreads] at hspeakable
                  cases hspeakable
                | missing | notDirectory | isDirectory | busy | tooLong => cases hunanswered
              · obtain rfl := Except.error.inj hf
                cases hunanswered
              · next text hreads =>
                obtain ⟨d, hparse, hblocked⟩ := (renderText_unanswered hkind).1 ⟨f, hf, hunanswered⟩
                exact .escape hbase hmet hnamed hplaced hreads hparse hblocked
  · intro h
    cases h with
    | @root p u given unknown =>
      refine ⟨.home u, ?_, rfl⟩
      unfold render renderBy
      rw [given, Option.mapM_some, unknown]
      rfl
    | @file base call u based met named unknown =>
      refine ⟨.home u, ?_, rfl⟩
      unfold render renderBy locateFile
      rw [based, met, named, unknown]
      rfl
    | @null base call p based met named known held =>
      refine ⟨.unreadable .embeddedNull p, ?_, rfl⟩
      rcases locateFile_cases known base with ⟨-, hplaced⟩ | ⟨hspeakable, -⟩
      · unfold render renderBy
        rw [based, met, named]
        simp only [mapError_ok, bind, Except.bind, hplaced]
      · rw [held] at hspeakable
        cases hspeakable
    | escape based met named placed reads parses blocked =>
      rw [render, renderBy_eq _ met named based placed reads]
      exact (renderText_unanswered hkind).2 ⟨_, parses, blocked⟩

end Patch

end Phrasebook
