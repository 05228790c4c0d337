import Phrasebook.Proofs.AttributeText
import Phrasebook.Proofs.ImportPlace
import Phrasebook.Proofs.Reapply

/-!
Wrapping a literal of the markup. A text between tags and the value of an attribute have a place in
the file where a call in braces may stand as well, so the file still parses with the call there, and
a scan finds its key at that place. A literal of code has no such place: without white space before
it the call runs into the word in front of it, and kept apart from it the call may still be part of
something else, as after `new`.
-/

namespace Phrasebook

open Text Source

namespace Source

open Control Shape Node Source.Tree

variable {dialect : Dialect} {text : List Char} {nodes : List Node} {path : List (List Char)}

/-! ### The value of an attribute -/

/-- The value of an attribute in a file: the characters before and after it, and the state of the
lexer before it. -/
structure ValueAt (markup : Bool) (text : List Char) (site : Site) (start : Nat) (raw : List Char)
    (before after : List Char) (s : Control) : Prop where
  text_eq : text = before ++ raw ++ after
  start_eq : start = byteLength before
  chars_eq : charsOf site.left ++ site.token.gap = before
  kind_eq : site.token.kind = .attribute
  run_eq : Control.start.run markup before = (site.left, s)
  inTag : s.InTag
  last_eq : s.lastIsSign '=' = true
  gap_eq : s.gap.reverse = site.token.gap
  right_eq : site.right = (resting s.frames).tokensFrom markup after

theorem kind_of_attribute_node {t : Token} {offset start : Nat} {raw : List Char}
    (h : nodesAll offset (tokenShapes t) = [.leaf (.string .attribute) start raw]) :
    t.kind = .attribute := by
  unfold tokenShapes at h
  split at h
  · rw [nodesAll_ofText] at h
    split at h <;> cases h
  · assumption
  · simp [nodesAll, nodes] at h

/-- Every value of an attribute is somewhere in its file. -/
theorem exists_valueAt {markup : Bool} {site : Site} {start : Nat} {raw : List Char} {c : Cursor}
    (hnode : c.node = .leaf (.string .attribute) start raw)
    (h : Located (tokens markup text) site 0 c) :
    ∃ before after s, ValueAt markup text site start raw before after s := by
  have hnodes := h.node_eq
  rw [hnode] at hnodes
  have hkind := kind_of_attribute_node hnodes
  obtain ⟨P, Q, s, htext, hP, htag, hlast, hgap, hright⟩ := tokens_eq_value hkind h.tokens_eq
  have hshapes : tokenShapes site.token = [.token (some (.string .attribute)) site.token] := by
    rw [tokenShapes, hkind]
  have hchars : charsOf site.left ++ site.token.gap = P := by
    have hrun := run_chars markup Control.start P
    have hstart : Control.start.pending = [] := rfl
    rw [hP, Emission.chars, hstart] at hrun
    simpa [Control.pending, htag.reading_eq, hgap] using hrun
  rw [hshapes] at hnodes
  obtain ⟨rfl, rfl⟩ : 0 + byteLength (charsOf site.left) + byteLength site.token.gap = start ∧
      site.token.text = raw := by
    simpa [nodesAll, nodes] using hnodes
  refine ⟨P, Q, s, htext, ?_, hchars, hkind, hP, htag, hlast, hgap, hright⟩
  rw [← hchars, byteLength_append, Nat.zero_add]

/-- The call in braces is read as the value of the attribute, wherever the tag is. -/
theorem ValueAt.tokens_replace {markup : Bool} {site : Site} {start : Nat}
    {raw before after : List Char} {s : Control}
    (h : ValueAt markup text site start raw before after s) (hpath : path ∈ defaultPaths)
    (key : List Char) :
    tokens markup (before ++
        ('\x7b' :: (['.'].intercalate path ++ '(' :: Escape.quoted key ++ [')']) ++ ['\x7d']) ++
        after) =
      site.replaced
        [Tree.callHole true site.token.gap path (Escape.quotedBody key ++ ['"'])] := by
  have hopen : s.step markup '\x7b' =
      ([.brace true site.token.gap], entering (.hole :: s.frames)) := by
    have hbegin : s.beginTag '\x7b' = s.openHole := rfl
    rw [h.inTag.step_eq, hbegin, openHole, h.last_eq, h.gap_eq]
    rfl
  have hcall := run_callHole markup hopen hpath key
  have hall (cs : List Char) : tokens markup cs = Control.start.tokensFrom markup cs := rfl
  rw [hall, tokensFrom_append, run_append, h.run_eq, Emission.andThen, hcall, ← h.right_eq,
    Site.replaced]
  simp [tokens_treeCallHole]

/-! ### The file with the call -/

/-- A file with a call in braces in the place of one of its nodes: what a scan of the other nodes
gives stays, and the call is where it has been put. -/
structure Called (dialect : Dialect) (before after : List Node) (key front call back : List Char)
    (nodes : List Node) : Prop where
  parses : parse dialect (front ++ ('\x7b' :: call ++ ['\x7d']) ++ back) = .ok nodes
  yields : ∃ inner found, List.Forall₂ (Node.Yields defaultFunctions) inner found ∧
    skeleton nodes = before.map sketch ++ inner ++ after.map sketch
  placed : CallAt key (byteLength front + 1) (preorderAll nodes)

/-- The file still parses with a call in place of the value of an attribute. -/
theorem called_value (hparse : parse dialect text = .ok nodes) {before after : List Node}
    {start : Nat} {raw : List Char}
    (hnodes : preorderAll nodes = before ++ .leaf (.string .attribute) start raw :: after)
    (hpath : path ∈ defaultPaths) {key : List Char} (hstrip : strip key = key) (hkey : key ≠ []) :
    ∃ front back nodes', text = front ++ raw ++ back ∧ start = byteLength front ∧
      Called dialect before after key front
        (['.'].intercalate path ++ '(' :: Escape.quoted key ++ [')']) back nodes' := by
  obtain ⟨site, hloc, hexchange⟩ := parse_exchange hparse
    (c := ⟨before, .leaf (.string .attribute) start raw, after⟩) hnodes rfl
  obtain ⟨P, Q, s, hvalue⟩ := exists_valueAt rfl hloc
  obtain ⟨nodes', hparse', hskeleton, earlier, later, hplaced⟩ := hexchange _ _
    (fits_value (Escape.quotedBody key ++ ['"']) dialect hpath hvalue.kind_eq) _
    (hvalue.tokens_replace hpath key)
  obtain ⟨found, hfound, -⟩ := yields_callHole true site.token.gap hpath hstrip hkey
  refine ⟨P, Q, nodes', hvalue.text_eq, hvalue.start_eq, hparse', ⟨_, found, hfound, hskeleton⟩, ?_⟩
  have hcall := callAt_callHole true site.token.gap hpath key (byteLength (charsOf site.left))
  rw [← byteLength_append, hvalue.chars_eq] at hcall
  rw [hplaced]
  exact hcall.mono (by simp +contextual)

/-- Likewise in place of a run of text. -/
theorem called_run (hparse : parse dialect text = .ok nodes) {before after : List Node}
    {start : Nat} {raw : List Char}
    (hnodes : preorderAll nodes = before ++ .run start raw :: after)
    (hpath : path ∈ defaultPaths) {key : List Char} (hstrip : strip key = key) (hkey : key ≠ []) :
    ∃ front back nodes', text = front ++ strip raw ++ back ∧
      start + byteLength (leftMargin isSpace raw) = byteLength front ∧
      Called dialect before after key front
        (['.'].intercalate path ++ '(' :: Escape.quoted key ++ [')']) back nodes' := by
  obtain ⟨front, back, left, right, nodes', htext, hstart, hleft, hright, hparse', hskeleton,
    hplaced⟩ := parse_wrapped hparse hnodes hpath key
  obtain ⟨found, hfound, -⟩ := yields_wrapped hpath hleft hright hstrip hkey
  exact ⟨front, back, nodes', htext, hstart, hparse', ⟨_, found, hfound, hskeleton⟩, hplaced⟩

namespace Document

variable {d : Document}

/-- A call with a key is a candidate at its place. -/
theorem mem_candidates_of_callAt {file : List Char} {cs : List Candidate}
    (h : d.candidates file defaultFunctions = .ok cs) {key : List Char} {offset : Nat}
    (hcall : CallAt key offset d.all) (hstrip : strip key = key) (hkey : key ≠ []) :
    ∃ c ∈ cs, c.localized = true ∧ c.keyPath = some (Points.ofChars key) ∧
      c.position = d.position offset := by
  obtain ⟨span, children, hmem, rfl, hlocalized⟩ := hcall
  obtain ⟨found, hfound, rfl⟩ := candidates_eq_ok.1 h
  obtain ⟨front, back, hall⟩ := List.append_of_mem hmem
  rw [hall] at hfound
  obtain ⟨x, o, y, rfl, -, hat, -⟩ := forall₂_append_cons hfound.flip
  have hat : d.candidateAt file defaultFunctions (.branch .call span children) = .ok o := hat
  have hvalue : Points.strip (Points.ofChars key) = Points.ofChars key := by
    rw [Points.strip_ofChars, hstrip]
  have hne : (Points.ofChars key).isEmpty = false := by simpa [Points.ofChars] using hkey
  rw [candidateAt, hlocalized] at hat
  simp only [candidate, hvalue, hne, Bool.false_eq_true, if_false] at hat
  split at hat
  · cases hat
    exact ⟨_, List.mem_filterMap.2 ⟨_, List.mem_append_right x List.mem_cons_self, rfl⟩, rfl, rfl,
      rfl⟩
  · cases hat

/-- A literal of the markup is a text between tags, or the value of an attribute. -/
theorem markup_of_literalAt {n : Node} {l : Literal} (h : d.literalAt n = some (.ok l))
    (hmarkup : l.kind = .text ∨ l.inAttribute = true) :
    (∃ start raw, n = .run start raw ∧ l = d.runLiteral start raw) ∨
      ∃ start raw value, n = .leaf (.string .attribute) start raw ∧
        l = d.quotedLiteral .string n.span true false value := by
  have hquoted {g : Points → Literal} {value : Except Escape.Fault Points}
      (hl : value.map g = .ok l) : ∃ v, g v = l := by
    cases value with
    | error f => cases hl
    | ok v => exact ⟨v, Except.ok.inj hl⟩
  unfold literalAt at h
  split at h
  · next start raw => exact .inl ⟨start, raw, rfl, (Except.ok.inj (Option.some.inj h)).symm⟩
  · next place start raw =>
    split at h
    · cases h
    · obtain ⟨value, rfl⟩ := hquoted (Option.some.inj h)
      have hplace : place = .attribute := by simpa [quotedLiteral] using hmarkup
      subst hplace
      exact .inr ⟨start, raw, value, rfl, rfl⟩
  · next start raw =>
    obtain ⟨value, rfl⟩ := hquoted (Option.some.inj h)
    simp [quotedLiteral] at hmarkup
  · next span parts =>
    split at h
    · cases h
    · obtain ⟨value, rfl⟩ := hquoted (Option.some.inj h)
      simp [quotedLiteral] at hmarkup
  · cases h

/-- Where a literal of the markup is in its file, and that the file still parses with a call
there. -/
theorem called_of_literalAt (hparse : Source.parse dialect d.text = .ok d.nodes)
    {before after : List Node} {n : Node} (hall : d.all = before ++ n :: after) {l : Literal}
    (hl : d.literalAt n = some (.ok l)) (hmarkup : l.kind = .text ∨ l.inAttribute = true)
    (hpath : path ∈ defaultPaths) {key : List Char} (hstrip : strip key = key) (hkey : key ≠ []) :
    ∃ front old back nodes', d.text = front ++ old ++ back ∧
      l.content = ⟨byteLength front, byteLength front + byteLength old⟩ ∧
      (∀ call, Edit.ofLiteral l call =
        ⟨l.content.start, l.content.stop, '\x7b' :: call ++ ['\x7d']⟩) ∧
      Called dialect before after key front
        (['.'].intercalate path ++ '(' :: Escape.quoted key ++ [')']) back nodes' := by
  rcases markup_of_literalAt hl hmarkup with ⟨start, raw, rfl, rfl⟩ | ⟨start, raw, value, rfl, rfl⟩
  · obtain ⟨front, back, nodes', htext, hstart, hcalled⟩ :=
      called_run hparse hall hpath hstrip hkey
    refine ⟨front, strip raw, back, nodes', htext, ?_, fun call => rfl, hcalled⟩
    rw [← hstart]
    rfl
  · obtain ⟨front, back, nodes', htext, rfl, hcalled⟩ :=
      called_value hparse hall hpath hstrip hkey
    exact ⟨front, raw, back, nodes', htext, rfl, fun call => rfl, hcalled⟩

end Document

end Source

/-- If the file could be scanned, it still can be with the call in it. -/
theorem Source.Called.candidates {dialect : Dialect} {before after : List Node} {n : Node}
    {key front call back : List Char} {nodes : List Node}
    (h : Called dialect before after key front call back nodes) {d : Document}
    (hall : d.all = before ++ n :: after) {file : List Char} {found : List Candidate}
    (hscan : d.candidates file defaultFunctions = .ok found) (text : List Char) :
    ∃ cs, Document.candidates ⟨text, nodes⟩ file defaultFunctions = .ok cs := by
  obtain ⟨os, hos, -⟩ := Document.candidates_eq_ok.1 hscan
  have hyields := (Document.forall₂_finding d file).1 ⟨os, hos, rfl⟩
  rw [hall] at hyields
  obtain ⟨x, o, y, -, hx, -, hy⟩ := forall₂_append_cons hyields.flip
  obtain ⟨inner, found, hinner, hskeleton⟩ := h.yields
  have hnodes : List.Forall₂ (Node.Yields defaultFunctions) (Document.all ⟨text, nodes⟩)
      (x ++ found ++ y) := by
    rw [← forall₂_yields_sketch]
    change List.Forall₂ _ (Node.skeleton nodes) _
    rw [hskeleton]
    exact List.rel_append (List.rel_append (forall₂_yields_sketch.2 hx.flip) hinner)
      (forall₂_yields_sketch.2 hy.flip)
  obtain ⟨cs, hcs, -⟩ := Document.candidates_of_yields ⟨text, nodes⟩ file hnodes
  exact ⟨cs, hcs⟩

namespace Patch

/-- A patch of a literal of the markup leaves a file that parses, and, if the file could be scanned
before, one in which a scan finds the key where the call has been put. -/
theorem localized_of_markup {w : Workspace} {root : Option Path} {t : Target} {r : Rendering}
    (h : render w root t = .ok r) (hskip : t.skipImport = true) {f : List Char}
    (hcallee : Call.callee t.functionName = .ok f) (hf : f ∈ defaultFunctions) {d : Document}
    (hparse : Document.parse (some r.path.toString) r.before = .ok d) {l : Literal}
    (hlocate : d.locate t.text t.line t.column = .ok (some l))
    (hmarkup : l.kind = .text ∨ l.inAttribute = true) :
    ∃ front call back d', Call.render t.functionName (strip t.key) = .ok call ∧
      byteLength front = l.content.start ∧
      r.after = front ++ ('\x7b' :: call ++ ['\x7d']) ++ back ∧
      Document.parse (some r.path.toString) r.after = .ok d' ∧
      ∀ file, Dialect.ofPath (String.ofList file) = Dialect.ofPath r.path.toString →
        ∀ found, scanText r.before file defaultFunctions = .ok found →
          ∃ cs, scanText r.after file defaultFunctions = .ok cs ∧
            ∃ c ∈ cs, c.localized = true ∧ c.keyPath = some (Points.ofChars (strip t.key)) ∧
              c.position = d'.position (byteLength front + 1) := by
  obtain ⟨call, text, hrenders⟩ := renders_of_renderBy h
  obtain ⟨rfl, d₁, l₁, found, hparse₁, hlocate₁, -, hfound, hedit⟩ :=
    edited_of_renderText hrenders.renders
  obtain rfl : d₁ = d := Except.ok.inj (hparse₁.symm.trans hparse)
  obtain rfl : l₁ = l := Option.some.inj (Except.ok.inj (hlocate₁.symm.trans hlocate))
  -- no import is asked for, so the edit of the literal is the only one
  obtain rfl : found = none := by
    refine Option.eq_none_iff_forall_not_mem.2 fun e he => ?_
    obtain ⟨b, hbinding, -⟩ := hfound e he
    simp [Target.binding, hskip] at hbinding
  obtain ⟨f₁, hcallee₁, hcall⟩ := Call.render_eq_ok hrenders.named
  obtain rfl : f₁ = f := Except.ok.inj (hcallee₁.symm.trans hcallee)
  obtain ⟨path, hpath, rfl⟩ := exists_path f₁ hf
  have hkey : strip t.key ≠ [] := strip_ne_nil (Target.not_blank hrenders.met).1
  have hstrip : strip (strip t.key) = strip t.key := trim_trim isSpace t.key
  obtain ⟨hnodes, htext⟩ := Document.parse_eq_ok.1 hparse
  obtain ⟨n, hn, hl⟩ := Document.mem_literals_of_locate hlocate
  obtain ⟨before, after, hall⟩ := List.append_of_mem hn
  rw [← htext] at hnodes
  obtain ⟨front, old, back, nodes', hsplit, hcontent, hliteral, hcalled⟩ :=
    Document.called_of_literalAt hnodes hall hl hmarkup hpath hstrip hkey
  have hcall : call = ['.'].intercalate path ++ '(' :: Escape.quoted (strip t.key) ++ [')'] := by
    rw [hcall]
    simp
  rw [← hcall] at hcalled
  have hafter : r.after = front ++ ('\x7b' :: call ++ ['\x7d']) ++ back := by
    rw [hliteral, hcontent, ← htext, hsplit] at hedit
    exact Except.ok.inj (hedit.symm.trans (Edit.apply_single front old back _))
  have hparse' {file : String} (hfile : Dialect.ofPath file = Dialect.ofPath r.path.toString) :
      Document.parse (some file) r.after = .ok ⟨r.after, nodes'⟩ := by
    rw [Document.parse_eq_ok, hfile, hafter]
    exact ⟨hcalled.parses, rfl⟩
  refine ⟨front, call, back, ⟨r.after, nodes'⟩, hrenders.named, by rw [hcontent], hafter,
    hparse' rfl, fun file hfile found hscan => ?_⟩
  have hbefore : Document.parse (some (String.ofList file)) r.before = .ok d₁ := by
    rw [Document.parse_eq_ok, hfile]
    exact ⟨htext ▸ hnodes, htext⟩
  obtain ⟨cs, hcs⟩ :=
    hcalled.candidates hall (Document.candidates_of_scanText hbefore hscan) r.after
  refine ⟨cs, ?_, Document.mem_candidates_of_callAt hcs hcalled.placed hstrip hkey⟩
  rw [scanText, hparse' hfile]
  exact mapError_eq_ok.2 hcs

theorem render_of_toOption {w : Workspace} {t : Target} {r : Rendering} (path : Path)
    (call text : List Char) (hmet : t.lacks? = none)
    (hnamed : Call.render t.functionName (strip t.key) = .ok call)
    (hpath : locateFile w none t.filePath = .ok path) (hreads : w.store.readText path = .ok text)
    (hr : (renderText Document.parse path text t call).toOption = some r) :
    render w none t = .ok r := by
  rw [render, renderBy_eq _ hmet hnamed rfl hpath hreads]
  cases hrendered : renderText Document.parse path text t call with
  | error f =>
    rw [hrendered] at hr
    cases hr
  | ok r' =>
    rw [hrendered] at hr
    rw [Option.some.inj hr]

theorem localized_of_markup_value :
    let text := "const a = <img alt= \"Logo\"/>;\n".toList
    let file : Entry := .leaf (.file (Utf8.encode text))
    let w : Workspace := ⟨Store.empty.place ["w", "a.tsx"] file, ⟨"/", ["w"]⟩, ⟨"/", ["h"]⟩, []⟩
    let t : Target := ⟨"a.tsx".toList, "Logo".toList, 1, 20, " k".toList, "t".toList, none,
      "named".toList, true⟩
    ∃ r d cs c, render w none t = .ok r ∧
      r.after = "const a = <img alt= \x7bt(\"k\")\x7d/>;\n".toList ∧
      Document.parse (some r.path.toString) r.after = .ok d ∧
      scanText r.after "a.tsx".toList defaultFunctions = .ok cs ∧ c ∈ cs ∧ c.localized = true ∧
      c.keyPath = some (Points.ofString "k") ∧ c.position = ⟨1, 21⟩ := by
  intro text file w t
  let path : Path := ⟨"/", ["w", "a.tsx"]⟩
  let call := "t(\"k\")".toList
  let l : Literal :=
    { kind := .string, value := Points.ofString "Logo", position := ⟨1, 20⟩, span := ⟨20, 26⟩,
      content := ⟨20, 26⟩, inAttribute := true, isKey := false }
  let r : Rendering :=
    ⟨path, text, "const a = <img alt= \x7bt(\"k\")\x7d/>;\n".toList, false⟩
  have hlocated : (Document.parse (some path.toString) text).toOption.map
      (fun d => d.locate t.text t.line t.column) = some (.ok (some l)) := by
    decide +kernel
  have hscanned : scanText text "a.tsx".toList defaultFunctions = .ok [] := by decide +kernel
  have hrender : render w none t = .ok r :=
    render_of_toOption path call text (by decide +kernel) (by decide +kernel) (by decide +kernel)
      (by decide +kernel) (by decide +kernel)
  have hcallee : Call.callee t.functionName = .ok "t".toList := by decide +kernel
  cases hparse : Document.parse (some path.toString) text with
  | error e =>
    rw [hparse] at hlocated
    cases hlocated
  | ok d =>
    rw [hparse] at hlocated
    obtain ⟨front, call', back, d', -, hfront, -, hparse', hscan⟩ :=
      localized_of_markup hrender rfl hcallee (by decide) hparse (Option.some.inj hlocated)
        (.inr rfl)
    obtain ⟨cs, hcs, c, hc, hlocalized, hkey, hposition⟩ :=
      hscan "a.tsx".toList (by decide +kernel) [] hscanned
    refine ⟨r, d', cs, c, hrender, rfl, hparse', hcs, hc, hlocalized, hkey, ?_⟩
    rw [hposition, hfront, Document.position, (Document.parse_eq_ok.1 hparse').2]
    decide +kernel

/-- In code the call may run into the word before it: then there is no call. -/
theorem call_runs_into_keyword :
    let text := "function f() \x7b return\"Save\" \x7d\n".toList
    let file : Entry := .leaf (.file (Utf8.encode text))
    let w : Workspace := ⟨Store.empty.place ["w", "a.tsx"] file, ⟨"/", ["w"]⟩, ⟨"/", ["h"]⟩, []⟩
    let t : Target := ⟨"a.tsx".toList, "Save".toList, 1, 21, "k".toList, "t".toList, none,
      "named".toList, true⟩
    ∃ r, render w none t = .ok r ∧
      r.after = "function f() \x7b returnt(\"k\") \x7d\n".toList ∧
      scanText r.before "a.tsx".toList defaultFunctions = .ok [] ∧
      scanText r.after "a.tsx".toList defaultFunctions = .ok [] := by
  intro text file w t
  let path : Path := ⟨"/", ["w", "a.tsx"]⟩
  let call := "t(\"k\")".toList
  let r : Rendering :=
    ⟨path, text, "function f() \x7b returnt(\"k\") \x7d\n".toList, false⟩
  have hrender : render w none t = .ok r :=
    render_of_toOption path call text (by decide +kernel) (by decide +kernel) (by decide +kernel)
      (by decide +kernel) (by decide +kernel)
  exact ⟨r, hrender, rfl, by decide +kernel, by decide +kernel⟩

example :
    let t : Target := ⟨"a.tsx".toList, "Save".toList, 1, 14, "k".toList, "t".toList, none,
      "named".toList, true⟩
    let after := "const a = new t(\"k\");\n".toList
    (renderText Document.parse ⟨"/", ["w", "a.tsx"]⟩ "const a = new \"Save\";\n".toList t
        "t(\"k\")".toList).toOption.map Rendering.after = some after ∧
      scanText after "a.tsx".toList defaultFunctions = .ok [] := by
  decide +kernel

end Patch

end Phrasebook
