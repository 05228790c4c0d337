import Phrasebook.Call
import Phrasebook.Proofs.FileExchange
import Phrasebook.Proofs.Splice
import Phrasebook.Proofs.Wrapping

/-!
Scanning a file again after one of its texts has been wrapped in a call: the scan finds the key of
the call where the text was, and everything else as before.
-/

namespace Phrasebook

open Text Source

namespace Source

open Control Source.Tree Shape Node

/-- A run of text in a file: the characters before and after its token, the white space of the
token around what is shown of it, and what is open there. -/
structure RunAt (markup : Bool) (text : List Char) (site : Site) (start : Nat) (raw : List Char)
    (before left right after : List Char) (frames : List Frame) : Prop where
  text_eq : text = before ++ (left ++ strip raw ++ right) ++ after
  start_eq : start + byteLength (leftMargin isSpace raw) = byteLength (before ++ left)
  kind_eq : site.token.kind = .text
  run_eq : Control.start.run markup before = (site.left, inText frames [])
  ends : TextEnds after
  right_eq : site.right = (inText frames []).tokensFrom markup after
  left_blank : ∀ c ∈ left, isSpace c = true
  right_blank : ∀ c ∈ right, isSpace c = true
  inside : ∀ c ∈ left ++ strip raw ++ right, endsText c = false

theorem kind_of_node_eq {t : Token} {offset start : Nat} {raw : List Char}
    (h : nodesAll offset (tokenShapes t) = [.run start raw]) : t.kind = .text := by
  unfold tokenShapes at h
  split at h
  · assumption
  · simp [nodesAll, nodes] at h
  · simp [nodesAll, nodes] at h

theorem charsOf_of_run {markup : Bool} {P : List Char} {X : List Token} {frames : List Frame}
    (h : Control.start.run markup P = (X, inText frames [])) : charsOf X = P := by
  have hchars := run_chars markup Control.start P
  have hstart : Control.start.pending = [] := rfl
  have hend : (inText frames []).pending = [] := rfl
  rwa [h, Emission.chars, hstart, hend, List.append_nil] at hchars

/-- The text token of a run, with the layout that the run leaves out. -/
theorem text_of_located {markup : Bool} {text : List Char} {site : Site} {start : Nat}
    {raw : List Char} {c : Cursor} (hnode : c.node = .run start raw)
    (h : Located (tokens markup text) site 0 c) :
    ∃ before left right after frames, text = before ++ (left ++ raw ++ right) ++ after ∧
      start = byteLength (before ++ left) ∧ site.token.kind = .text ∧
      Control.start.run markup before = (site.left, inText frames []) ∧ TextEnds after ∧
      site.right = (inText frames []).tokensFrom markup after ∧
      (∀ c ∈ left, isSpace c = true) ∧ (∀ c ∈ right, isSpace c = true) ∧
      ∀ c ∈ left ++ raw ++ right, endsText c = false := by
  obtain ⟨X, ⟨kind, gap, w⟩, Y⟩ := site
  have hnodes := h.node_eq
  rw [hnode] at hnodes
  obtain rfl : kind = .text := kind_of_node_eq hnodes
  obtain ⟨P, Q, frames, htext, rfl, hw, hP, hQ, hY⟩ := tokens_eq_text h.tokens_eq
  have hshapes : tokenShapes ⟨.text, [], w⟩ = ofText w := rfl
  rw [hshapes, nodesAll_ofText] at hnodes
  split at hnodes
  · cases hnodes
  · obtain ⟨rfl, rfl⟩ := Node.run.inj (List.singleton_inj.1 hnodes)
    have hlayout := Lexeme.layout_textRun w
    refine ⟨P, Lexeme.layoutBefore w, Lexeme.layoutAfter w, Q, frames, by rw [hlayout, htext], ?_,
      rfl, hP, hQ, hY, fun c hc => Lexeme.isSpace_of_mem_layoutBefore hc,
      fun c hc => Lexeme.isSpace_of_mem_layoutAfter hc, by rwa [hlayout]⟩
    rw [byteLength_append, charsOf_of_run hP, Nat.zero_add]

/-- Every run of text is somewhere in its file. -/
theorem exists_runAt {markup : Bool} {text : List Char} {site : Site} {start : Nat}
    {raw : List Char} {c : Cursor} (hnode : c.node = .run start raw)
    (h : Located (tokens markup text) site 0 c) :
    ∃ before left right after frames,
      RunAt markup text site start raw before left right after frames := by
  obtain ⟨P, left, right, Q, frames, htext, hstart, hkind, hP, hQ, hY, hleft, hright, hinside⟩ :=
    text_of_located hnode h
  have hsplit : left ++ leftMargin isSpace raw ++ strip raw ++ (rightMargin isSpace raw ++ right) =
      left ++ raw ++ right := by
    conv_rhs => rw [← margins_trim isSpace raw]
    simp [strip]
  refine ⟨P, left ++ leftMargin isSpace raw, rightMargin isSpace raw ++ right, Q, frames, ?_, ?_,
    hkind, hP, hQ, hY, ?_, ?_, ?_⟩
  · rw [hsplit, htext]
  · rw [hstart, ← byteLength_append, List.append_assoc]
  · intro c hc
    rcases List.mem_append.1 hc with hc | hc
    · exact hleft c hc
    · exact blank_of_mem_leftMargin isSpace hc
  · intro c hc
    rcases List.mem_append.1 hc with hc | hc
    · exact blank_of_mem_rightMargin isSpace hc
    · exact hright c hc
  · rwa [hsplit]

variable {dialect : Dialect} {path : List (List Char)}

/-- The file still parses with a call in place of a run of text, its nodes are the same but for
those of the call, and the call is where it has been put. -/
theorem parse_wrapped {text : List Char} {nodes : List Node}
    (hparse : parse dialect text = .ok nodes) {before after : List Node} {start : Nat}
    {raw : List Char} (hnodes : preorderAll nodes = before ++ .run start raw :: after)
    (hpath : path ∈ defaultPaths) (key : List Char) :
    ∃ front back left right nodes', text = front ++ strip raw ++ back ∧
      start + byteLength (leftMargin isSpace raw) = byteLength front ∧
      (∀ c ∈ left, isSpace c = true) ∧ (∀ c ∈ right, isSpace c = true) ∧
      parse dialect (front ++
        ('\x7b' :: (['.'].intercalate path ++ '(' :: Escape.quoted key ++ [')']) ++ ['\x7d']) ++
        back) = .ok nodes' ∧
      skeleton nodes' = before.map sketch ++ skeleton (nodesAll 0
        (Shape.wrapped left path (Escape.quotedBody key ++ ['"']) right).flatten) ++
        after.map sketch ∧
      CallAt key (byteLength front + 1) (preorderAll nodes') := by
  obtain ⟨site, hloc, hexchange⟩ := parse_exchange hparse (c := ⟨before, .run start raw, after⟩)
    hnodes trivial
  obtain ⟨P, left, right, Q, frames, hrun⟩ := exists_runAt rfl hloc
  obtain ⟨new, hnew, htokens⟩ := run_wrapped (dialect == .markup) frames hpath key left right
    (fun c hc => hrun.inside c (by simp [hc])) (fun c hc => hrun.inside c (by simp [hc]))
  have hreplace := tokens_replace hrun.run_eq hnew hrun.ends
  rw [htokens, ← hrun.right_eq] at hreplace
  obtain ⟨nodes', hparse', hskeleton, earlier, later, hplaced⟩ := hexchange _ _
    (fits_wrapped dialect hpath left (Escape.quotedBody key ++ ['"']) right hrun.kind_eq) _ hreplace
  refine ⟨P ++ left, right ++ Q, left, right, nodes', ?_, hrun.start_eq, hrun.left_blank,
    hrun.right_blank, ?_, hskeleton, ?_⟩
  · rw [hrun.text_eq]
    simp
  · rw [← hparse']
    congr 1
    simp
  · rw [hplaced, charsOf_of_run hrun.run_eq, byteLength_append]
    exact (callAt_wrapped hpath key left right (byteLength P)).mono (by simp +contextual)

end Source

/-- The names of the default functions are paths. -/
theorem exists_path :
    ∀ f ∈ defaultFunctions, ∃ path ∈ defaultPaths, ['.'].intercalate path = f := by
  decide

theorem forall₂_append_cons {α β : Type} {R : α → β → Prop} {l : List α} {a c : List β} {b : β}
    (h : List.Forall₂ R l (a ++ b :: c)) :
    ∃ x y z, l = x ++ y :: z ∧ List.Forall₂ R x a ∧ R y b ∧ List.Forall₂ R z c := by
  induction a generalizing l with
  | nil =>
    obtain ⟨y, z, hy, hz, rfl⟩ := List.forall₂_cons_right_iff.1 h
    exact ⟨[], y, z, rfl, .nil, hy, hz⟩
  | cons first a ih =>
    obtain ⟨x, l, hx, hl, rfl⟩ := List.forall₂_cons_right_iff.1 h
    obtain ⟨xs, y, z, rfl, hxs, hy, hz⟩ := ih hl
    exact ⟨x :: xs, y, z, rfl, .cons hx hxs, hy, hz⟩

namespace Source.Document

variable {d : Document}

theorem parse_eq_ok {path : String} {text : List Char} :
    parse (some path) text = .ok d ↔
      Source.parse (.ofPath path) text = .ok d.nodes ∧ d.text = text := by
  obtain ⟨text', nodes'⟩ := d
  simp only [parse]
  cases Source.parse (.ofPath path) text with
  | error e => simp
  | ok nodes => simp [and_comm, eq_comm]

end Source.Document

theorem forall₂_yields_sketch {ns : List Node} {os : List (Option Finding)} :
    List.Forall₂ (Node.Yields defaultFunctions) (ns.map Node.sketch) os ↔
      List.Forall₂ (Node.Yields defaultFunctions) ns os := by
  rw [List.forall₂_map_left_iff]
  exact ⟨fun h => h.imp fun _ _ => Node.yields_sketch.1,
    fun h => h.imp fun _ _ => Node.yields_sketch.2⟩

theorem strip_ne_nil {key : List Char} (h : isBlankText key = false) : strip key ≠ [] := by
  intro hnil
  have hblank : isBlankText key = true := List.all_eq_true.2 (blank_of_trim_eq_nil isSpace hnil)
  rw [h] at hblank
  cases hblank

/-- An edit that replaces a part of a text. -/
theorem Edit.apply_single (front old back new : List Char) :
    Edit.apply (front ++ old ++ back)
      [⟨byteLength front, (byteLength front + byteLength old : Nat), new⟩] =
        .ok (front ++ new ++ back) :=
  apply_one rfl rfl

end Phrasebook
