import Phrasebook.Proofs.CallHole
import Phrasebook.Proofs.Exchange
import Phrasebook.Proofs.Finding

/-!
A call in braces may take the place of a text between tags, and of the value of an attribute. It is
read on its own, and all that it gives to a scan is its key.
-/

namespace Phrasebook.Source

open Text Control Source.Tree Shape

/-! ### Trees -/

def Tree.callHole (value : Bool) (gap : List Char) (path : List (List Char)) (body : List Char) :
    Tree :=
  .nested (.brace value gap) ((Shape.call path body).tokens.map .token)
    (some ⟨.holeEnd, [], ['\x7d']⟩)

variable {path : List (List Char)} (value : Bool) (gap body : List Char)

theorem tokensAll_token (ts : List Token) : Tree.tokensAll (ts.map .token) = ts := by
  induction ts with
  | nil => simp
  | cons t ts ih => simp [ih]

theorem tokens_treeCallHole (path : List (List Char)) :
    (Tree.callHole value gap path body).tokens = (Shape.callHole value gap path body).tokens := by
  simp [Tree.callHole, tokensAll_token, Shape.callHole]

theorem read_callHole (dialect : Dialect) (h : path ∈ defaultPaths) :
    (Tree.callHole value gap path body).read dialect = .ok [.callHole value gap path body] := by
  let shape := Shape.callHole value gap path body
  have hrow : row (.brace value gap) (readEach dialect ((Shape.call path body).tokens.map .token))
      (some ⟨.holeEnd, [], ['\x7d']⟩) = shape.tokens.map tokenPart := by
    simp [row, readEach_eq_map, shape, Shape.callHole, tokenPart, Tree.read]
  have houtline : Tree.outline 0 (shape.tokens.map .token) = shape.tokens := by
    simp only [defaultPaths, List.mem_cons, List.not_mem_nil, or_false] at h
    rcases h with rfl | rfl | rfl | rfl <;> rfl
  have hfill (table : List (List Shape)) : fillAll table [shape] = [shape] := by
    simp only [defaultPaths, List.mem_cons, List.not_mem_nil, or_false] at h
    rcases h with rfl | rfl | rfl | rfl <;> rfl
  have hread : (Tree.callHole value gap path body).read dialect =
      Part.readAs dialect .hole (shape.tokens.map tokenPart) := by
    rw [← hrow, Tree.callHole, Tree.read]
    rfl
  rw [hread, Part.readAs_eq_ok]
  refine ⟨[shape], shape.tokens.map tokenShapes, ?_, ?_, (hfill _).symm⟩
  · have htrees : (shape.tokens.map tokenPart).map Prod.fst = shape.tokens.map .token := by
      rw [List.map_map]
      rfl
    rw [htrees, houtline]
    exact readAll_callHole value gap body dialect h
  · rw [Part.shapes_eq_ok, List.map_map, List.map_map]
    rfl

theorem formed_callHole (h : path ∈ defaultPaths) :
    Formed true false (Tree.callHole value gap path body) := by
  refine .nested rfl rfl (by simp [Token.isProper, TokenKind.closes]) (by simp) ?_
  intro p hp
  obtain ⟨t, ht, rfl⟩ := List.mem_map.1 hp
  have hall : (Shape.call path body).tokens.all
      (fun t => t.kind == .word || t.kind == .sign || t.kind == .string) = true := by
    simp only [defaultPaths, List.mem_cons, List.not_mem_nil, or_false] at h
    rcases h with rfl | rfl | rfl | rfl <;> rfl
  have hkind : t.kind = .word ∨ t.kind = .sign ∨ t.kind = .string := by
    simpa [or_assoc] using List.all_eq_true.1 hall t ht
  rcases hkind with hk | hk | hk <;>
    exact .token (by simp [Token.isProper, hk]) (by simp [TokenKind.opens, hk])
      (by simp [TokenKind.closes, hk])

def Tree.wrapped (before : List Char) (path : List (List Char)) (body after : List Char) :
    List Tree :=
  (textToken before.reverse).map .token ++ Tree.callHole false [] path body ::
    (textToken after.reverse).map .token

def Shape.wrapped (before : List Char) (path : List (List Char)) (body after : List Char) :
    List (List Shape) :=
  (textToken before.reverse).map tokenShapes ++ [.callHole false [] path body] ::
    (textToken after.reverse).map tokenShapes

/-- The call is the value of an attribute in place of another. -/
theorem fits_value (dialect : Dialect) (h : path ∈ defaultPaths) {t : Token}
    (ht : t.kind = .attribute) :
    Fits dialect t [Tree.callHole true t.gap path body] [[.callHole true t.gap path body]] := by
  refine ⟨?_, ?_, .inr ⟨ht, _, rfl, rfl, rfl⟩⟩
  · intro x hx
    rw [List.mem_singleton.1 hx]
    exact formed_callHole true t.gap body h
  · rw [Part.shapes_eq_ok, readEach_eq_map]
    simp [read_callHole true t.gap body dialect h]

theorem fits_wrapped (dialect : Dialect) (h : path ∈ defaultPaths) (before body after : List Char)
    {t : Token} (ht : t.kind = .text) :
    Fits dialect t (Tree.wrapped before path body after)
      (Shape.wrapped before path body after) := by
  have hformed {u : Token} (hu : u.kind = .text) : Formed true false (.token u) :=
    .token (by simp [Token.isProper, hu]) (by simp [TokenKind.opens, hu])
      (by simp [TokenKind.closes, hu])
  refine ⟨?_, ?_, .inl ⟨ht, ?_⟩⟩
  · intro x hx
    rw [Tree.wrapped, List.mem_append, List.mem_cons, List.mem_map, List.mem_map] at hx
    rcases hx with ⟨u, hu, rfl⟩ | rfl | ⟨u, hu, rfl⟩
    · exact hformed (kind_of_mem_textToken hu)
    · exact formed_callHole false [] body h
    · exact hformed (kind_of_mem_textToken hu)
  · rw [Part.shapes_eq_ok, readEach_eq_map, Tree.wrapped, Shape.wrapped]
    simp [read_callHole false [] body dialect h, Tree.read, Function.comp_def]
  · intro p hp
    rw [readEach_eq_map, Tree.wrapped] at hp
    obtain ⟨x, hx, rfl⟩ := List.mem_map.1 hp
    rw [List.mem_append, List.mem_cons, List.mem_map, List.mem_map] at hx
    rcases hx with ⟨u, hu, rfl⟩ | rfl | ⟨u, hu, rfl⟩
    · simp [Part.isContent, kind_of_mem_textToken hu]
    · rfl
    · simp [Part.isContent, kind_of_mem_textToken hu]

/-! ### Lexing -/

/-- Where an element text ends, the rest of the file does not depend on it. -/
theorem run_inText_end (markup : Bool) (frames : List Frame) (done : List Char) (c : Char)
    (r : List Char) (h : endsText c = true) :
    (inText frames done).run markup (c :: r) =
      (textToken done ++ ((inText frames []).run markup (c :: r)).1,
        ((inText frames []).run markup (c :: r)).2) := by
  simp only [Control.run]
  rw [step_inText_end markup frames done c h]
  simp [Emission.andThen]

/-- The tokens of a call in braces between two texts. -/
theorem run_wrapped (markup : Bool) (frames : List Frame) (h : path ∈ defaultPaths)
    (key before after : List Char) (hbefore : ∀ c ∈ before, endsText c = false)
    (hafter : ∀ c ∈ after, endsText c = false) :
    ∃ new, (inText frames []).run markup (before ++
        ('\x7b' :: (['.'].intercalate path ++ '(' :: Escape.quoted key ++ [')']) ++ ['\x7d']) ++
        after) = (new, inText frames after.reverse) ∧
      new ++ textToken after.reverse =
        Tree.tokensAll (Tree.wrapped before path (Escape.quotedBody key ++ ['"']) after) := by
  refine ⟨textToken before.reverse ++
    (Shape.callHole false [] path (Escape.quotedBody key ++ ['"'])).tokens, ?_, ?_⟩
  · have hopen : (inText frames []).step markup '\x7b' =
        ([.brace false []], entering (.hole :: .content :: frames)) := rfl
    have hresting : resting (.content :: frames) = inText frames [] := rfl
    have hcall := run_callHole markup hopen h key
    rw [hresting] at hcall
    have hend := run_inText_end markup frames before.reverse '\x7b'
      ((['.'].intercalate path ++ '(' :: Escape.quoted key ++ [')']) ++ ['\x7d']) rfl
    rw [← List.cons_append] at hend
    rw [hcall] at hend
    rw [List.append_assoc, run_append, run_inText markup frames [] before hbefore,
      Emission.andThen, List.append_nil, run_append, hend, Emission.andThen,
      run_inText markup frames [] after hafter]
    simp
  · simp [Tree.wrapped, tokens_treeCallHole, tokensAll_token]

/-! ### What a scan finds -/

open Node

def Node.callSketch (name : Node) (body : List Char) : Node :=
  .branch .call ⟨0, 0⟩ [name, .branch .arguments ⟨0, 0⟩ [.leaf (.string .value) 0 ('"' :: body)]]

theorem skeleton_callHole (h : path ∈ defaultPaths) :
    ∃ name : Node, name.dottedName = some (['.'].intercalate path) ∧
      (∀ n ∈ name.preorder, n.finding? defaultFunctions = .ok none) ∧
      skeleton (nodesAll 0 [Shape.callHole value gap path body]) =
        .branch .group ⟨0, 0⟩ [] :: callSketch name body :: (name.preorder ++
          [.branch .arguments ⟨0, 0⟩ [.leaf (.string .value) 0 ('"' :: body)],
            .leaf (.string .value) 0 ('"' :: body)]) := by
  simp only [defaultPaths, List.mem_cons, List.not_mem_nil, or_false] at h
  rcases h with rfl | rfl | rfl | rfl
  · exact ⟨.leaf .name 0 "t".toList, rfl, by simp [finding?], rfl⟩
  · exact ⟨.leaf .name 0 "translate".toList, rfl, by simp [finding?], rfl⟩
  · exact ⟨.leaf .name 0 "formatMessage".toList, rfl, by simp [finding?], rfl⟩
  · exact ⟨.branch .member ⟨0, 0⟩ [.leaf .name 0 "intl".toList,
      .leaf .property 0 "formatMessage".toList], rfl, by simp [finding?], rfl⟩

theorem localizedKey_callSketch (h : path ∈ defaultPaths) {name : Node}
    (hname : name.dottedName = some (['.'].intercalate path)) (key : List Char) :
    (callSketch name (Escape.quotedBody key ++ ['"'])).localizedKey defaultFunctions =
      some (.ok (Points.ofChars key)) := by
  have hfunction : ['.'].intercalate path ∈ defaultFunctions ∧ ['.'].intercalate path ≠ [] := by
    simp only [defaultPaths, List.mem_cons, List.not_mem_nil, or_false] at h
    rcases h with rfl | rfl | rfl | rfl <;> decide
  have hvalue : stringValue .value ('"' :: (Escape.quotedBody key ++ ['"'])) =
      .ok (Points.ofChars key) := by
    rw [← Escape.decode_quotedBody key]
    simp [stringValue, unquoted]
  simp [callSketch, localizedKey, callee, firstArgument, Node.children, hname, hfunction, hvalue]

/-- A call of a default function gives its key. -/
theorem yields_callSketch (h : path ∈ defaultPaths) {name : Node}
    (hname : name.dottedName = some (['.'].intercalate path)) {key : List Char}
    (hstrip : strip key = key) (hkey : key ≠ []) :
    (callSketch name (Escape.quotedBody key ++ ['"'])).Yields defaultFunctions
      (some ⟨Points.ofChars key, true, some (Points.ofChars key)⟩) := by
  have hlocalized := localizedKey_callSketch h hname key
  have htext : Points.strip (Points.ofChars key) = Points.ofChars key := by
    rw [Points.strip_ofChars, hstrip]
  have hpoints : Points.ofChars key ≠ [] := by simpa [Points.ofChars] using hkey
  refine ⟨?_, ?_⟩
  · rw [callSketch] at hlocalized ⊢
    simp [finding?, hlocalized, Except.map, finding, htext, hpoints]
  · rintro x hx p hp
    cases hx
    exact Points.isSome_of_mem_ofChars hp

/-- White space gives nothing. -/
theorem finding?_run_of_blank (functions : List (List Char)) (start : Nat) {raw : List Char}
    (h : ∀ c ∈ raw, isSpace c = true) : (Node.run start raw).finding? functions = .ok none := by
  have hdecode : CharacterReference.decode raw = raw := by
    rw [CharacterReference.decode]
    induction raw with
    | nil => rfl
    | cons c raw ih =>
      have hc : c ≠ '&' := by
        rintro rfl
        exact absurd (h '&' (by simp)) (by decide)
      rw [CharacterReference.decodeFrom]
      simp [hc, ih fun d hd => h d (by simp [hd])]
  have hvalue : Points.strip (Points.ofChars raw) = [] := by
    rw [Points.strip_ofChars, strip, trim_eq_nil isSpace h]
    rfl
  have hnothing : finding [] false none = none := rfl
  simp [finding?, hdecode, hvalue, hnothing]

theorem finding?_of_blank (functions : List (List Char)) {text : List Char}
    (h : ∀ c ∈ text, isSpace c = true) :
    ∀ n ∈ skeleton (nodesAll 0 ((textToken text.reverse).map tokenShapes).flatten),
      n.finding? functions = .ok none := by
  intro n hn
  unfold textToken at hn
  split at hn
  · simp at hn
  · have hshapes : tokenShapes ⟨.text, [], text⟩ = ofText text := rfl
    rw [List.reverse_reverse, List.map_singleton, hshapes, List.flatten_singleton,
      nodesAll_ofText] at hn
    split at hn
    · simp at hn
    · rw [skeleton, preorderAll_cons, preorder_run, preorderAll_nil] at hn
      obtain rfl : n = .run 0 (Lexeme.textRun text) := by simpa using hn
      refine finding?_run_of_blank functions 0 fun c hc => h c ?_
      rw [← Lexeme.layout_textRun text]
      simp [hc]

theorem forall₂_of_silent {ns : List Node}
    (h : ∀ n ∈ ns, n.finding? defaultFunctions = .ok none) :
    List.Forall₂ (Node.Yields defaultFunctions) ns (ns.map fun _ => none) := by
  rw [List.forall₂_map_right_iff, List.forall₂_same]
  exact fun n hn => yields_none (h n hn)

/-- A call in braces gives its key and nothing else. -/
theorem yields_callHole (h : path ∈ defaultPaths) {key : List Char} (hstrip : strip key = key)
    (hkey : key ≠ []) :
    ∃ found, List.Forall₂ (Node.Yields defaultFunctions)
        (skeleton (nodesAll 0 [Shape.callHole value gap path (Escape.quotedBody key ++ ['"'])]))
        found ∧
      found.filterMap id = [⟨Points.ofChars key, true, some (Points.ofChars key)⟩] := by
  obtain ⟨name, hname, hnames, hskeleton⟩ :=
    skeleton_callHole value gap (Escape.quotedBody key ++ ['"']) h
  refine ⟨none :: some ⟨Points.ofChars key, true, some (Points.ofChars key)⟩ ::
    ((name.preorder.map fun _ => none) ++ [none, none]), ?_, by simp⟩
  rw [hskeleton]
  exact .cons (yields_none rfl) (.cons (yields_callSketch h hname hstrip hkey)
    (List.rel_append (forall₂_of_silent hnames)
      (.cons (yields_none rfl) (.cons (yields_none rfl) .nil))))

/-- Between white space too. -/
theorem yields_wrapped (h : path ∈ defaultPaths) {before after key : List Char}
    (hbefore : ∀ c ∈ before, isSpace c = true) (hafter : ∀ c ∈ after, isSpace c = true)
    (hstrip : strip key = key) (hkey : key ≠ []) :
    ∃ found, List.Forall₂ (Node.Yields defaultFunctions)
        (skeleton (nodesAll 0
          (Shape.wrapped before path (Escape.quotedBody key ++ ['"']) after).flatten)) found ∧
      found.filterMap id = [⟨Points.ofChars key, true, some (Points.ofChars key)⟩] := by
  obtain ⟨found, hhole, hfound⟩ := yields_callHole false [] h hstrip hkey
  rw [Shape.wrapped, List.flatten_append, List.flatten_cons, nodesAll_append, nodesAll_append,
    skeleton_append, skeleton_append, (alike_nodesAll [Shape.callHole _ _ _ _] _ 0).skeletons,
    (alike_nodesAll ((textToken after.reverse).map tokenShapes).flatten _ 0).skeletons]
  refine ⟨_, List.rel_append (forall₂_of_silent (finding?_of_blank defaultFunctions hbefore))
    (List.rel_append hhole (forall₂_of_silent (finding?_of_blank defaultFunctions hafter))), ?_⟩
  simpa using hfound

/-! ### Where the call stands -/

def CallAt (key : List Char) (offset : Nat) (ns : List Node) : Prop :=
  ∃ span children, .branch .call span children ∈ ns ∧ span.start = offset ∧
    (Node.branch .call span children).localizedKey defaultFunctions =
      some (.ok (Points.ofChars key))

theorem CallAt.mono {key : List Char} {offset : Nat} {ns ms : List Node} (h : CallAt key offset ns)
    (hsub : ∀ n ∈ ns, n ∈ ms) : CallAt key offset ms := by
  obtain ⟨span, children, hmem, hstart, hkey⟩ := h
  exact ⟨span, children, hsub _ hmem, hstart, hkey⟩

/-- The call is one byte after the white space before its brace. -/
theorem callAt_callHole (h : path ∈ defaultPaths) (key : List Char) (offset : Nat) :
    CallAt key (offset + byteLength gap + 1) (preorderAll
      (nodesAll offset [Shape.callHole value gap path (Escape.quotedBody key ++ ['"'])])) := by
  obtain ⟨name, hname, -, hskeleton⟩ :=
    skeleton_callHole value gap (Escape.quotedBody key ++ ['"']) h
  rw [(alike_nodesAll _ 0 offset).skeletons] at hskeleton
  let call := Shape.call path (Escape.quotedBody key ++ ['"'])
  let inner := offset + byteLength gap + 1
  have hlead : call.lead = 0 := by
    simp only [defaultPaths, List.mem_cons, List.not_mem_nil, or_false] at h
    rcases h with rfl | rfl | rfl | rfl <;> rfl
  obtain ⟨children, hcall⟩ : ∃ children,
      call.nodes inner = [.branch .call ⟨inner, inner + call.width⟩ children] := by
    have hnodes : call.nodes inner =
        [.branch .call ⟨inner + call.lead, inner + call.width⟩ _] := rfl
    exact ⟨_, by rw [hnodes, hlead, Nat.add_zero]⟩
  have hinner : nodesAll offset [.token none (.brace value gap), call,
      .token none ⟨.holeEnd, [], ['\x7d']⟩] =
        [.branch .call ⟨inner, inner + call.width⟩ children] := by
    have hwidth : offset + (Shape.token none (.brace value gap)).width = inner := rfl
    simp only [nodesAll, hwidth, hcall]
    simp [nodes]
  obtain ⟨group, rest, hnodes⟩ : ∃ group rest,
      preorderAll (nodesAll offset
        [Shape.callHole value gap path (Escape.quotedBody key ++ ['"'])]) =
      group :: .branch .call ⟨inner, inner + call.width⟩ children :: rest := by
    rw [nodesAll, Shape.callHole, nodes, hinner]
    simp [nodesAll]
  rw [skeleton, hnodes, List.map_cons, List.map_cons] at hskeleton
  have hsketch := (List.cons.inj (List.cons.inj hskeleton).2).1
  refine ⟨⟨inner, inner + call.width⟩, children, by simp [hnodes], rfl, ?_⟩
  rw [← localizedKey_sketch, hsketch]
  exact localizedKey_callSketch h hname key

/-- Behind what is left of a text, the call is one byte after that. -/
theorem callAt_wrapped (h : path ∈ defaultPaths) (key before after : List Char) (offset : Nat) :
    CallAt key (offset + byteLength before + 1) (preorderAll (nodesAll offset
      (Shape.wrapped before path (Escape.quotedBody key ++ ['"']) after).flatten)) := by
  have hbefore : charsOf (tokensAll ((textToken before.reverse).map tokenShapes).flatten) =
      before := by
    unfold textToken
    split
    · next hempty => simp_all
    · simpa using (tokenShapes_recut ⟨.text, [], before⟩).chars
  have hcall := callAt_callHole false [] h key (offset + byteLength before)
  rw [Shape.wrapped, List.flatten_append, List.flatten_cons, nodesAll_append, nodesAll_append,
    hbefore]
  exact hcall.mono (by simp +contextual)

end Phrasebook.Source
