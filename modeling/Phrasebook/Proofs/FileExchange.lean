import Phrasebook.Proofs.Construct
import Phrasebook.Proofs.ElementExchange

/-!
Exchanging a text in a file. A file is read section by section; the section that a run of text is
in still reads with other trees in its place, and so do the sections before and after it, which
only move.
-/

namespace Phrasebook.Source

open Node Shape Source.Tree

variable {dialect : Dialect}

/-! ### Trees at the top of a file -/

namespace Tree

theorem formed_of_role? {t : Tree} (h : Formed true true t) (hrole : t.role?.isSome = true) :
    Formed true false t := by
  cases h with
  | token proper opens closes =>
      exact .token proper opens fun hcloses => by
        rw [((isInner_of_role? hrole) _ rfl).2] at hcloses
        cases hcloses
  | nested proper opens closes isWhole inner => exact .nested proper opens closes isWhole inner

theorem Formed.top {t : Tree} (h : Formed true false t) : Formed true true t := by
  cases h with
  | token proper opens closes => exact .token proper opens fun _ => rfl
  | nested proper opens closes isWhole inner => exact .nested proper opens closes isWhole inner

theorem rowSound_section {body : List Tree} (hbody : ∀ t ∈ body, Formed true true t) {e : Token}
    (he : isEnd e = true) : RowSound dialect (body ++ [token e]) := by
  have hkind : e.kind = .stop ∨ e.kind = .border := by simpa [isEnd] using he
  have hown : e.IsOwn := by
    intro role index hk
    rcases hkind with h | h <;> rw [h] at hk <;> cases hk
  refine ⟨fun t ht => ?_, fun t ht hrole => ?_⟩
  · rcases List.mem_append.1 ht with ht | ht
    · exact faithful_read (hbody t ht)
    · rw [List.mem_singleton.1 ht]
      exact faithful_token hown
  · rcases List.mem_append.1 ht with ht | ht
    · exact exchangeable_of_formed (formed_of_role? (hbody t ht) hrole)
    · rw [List.mem_singleton.1 ht] at hrole
      rcases hkind with h | h <;> simp [role?, h] at hrole

/-! ### Where a file is cut -/

def flags (trees : List Tree) : List Bool := trees.map (isToken .importWord)

theorem flags_exchange {before after : List Tree} {tree x : Tree}
    (htree : tree.role?.isSome = true) (hx : x.role?.isSome = true) :
    flags (before ++ x :: after) = flags (before ++ tree :: after) := by
  have hflag : ∀ {t : Tree}, t.role?.isSome = true → t.isToken .importWord = false := by
    intro t ht
    cases t with
    | token t =>
        by_cases hk : t.kind = .attribute
        · simp [isToken, hk]
        · simp [role?, hk] at ht
    | nested opening parts ending => rfl
  simp [flags, hflag htree, hflag hx]

/-- A file is cut at its imports, whatever else is in it. -/
theorem sections_of_flags {trees : List Tree} {secs : List (List Tree)}
    (h : secs.map flags = (sections trees).map flags) : sections secs.flatten = secs := by
  induction trees generalizing secs with
  | nil =>
      obtain ⟨first, others, rfl, hfirst, hothers⟩ := List.map_eq_cons_iff.1 h
      obtain rfl := List.map_eq_nil_iff.1 hothers
      obtain rfl := List.map_eq_nil_iff.1 hfirst
      rfl
  | cons t trees ih =>
      obtain ⟨first, others, hsecs, -⟩ := sections_eq trees
      rw [sections, hsecs] at h
      rw [hsecs] at ih
      simp only at h
      split at h
      · next ht =>
        obtain ⟨none', rest, rfl, hnone, h⟩ := List.map_eq_cons_iff.1 h
        obtain ⟨second, others', rfl, hsecond, hothers⟩ := List.map_eq_cons_iff.1 h
        obtain rfl := List.map_eq_nil_iff.1 hnone
        obtain ⟨t', first', rfl, ht', hfirst⟩ := List.map_eq_cons_iff.1 hsecond
        have hrest : sections (first' :: others').flatten = first' :: others' := by
          refine ih ?_
          rw [List.map_cons, List.map_cons, hothers]
          exact congrArg (· :: _) hfirst
        rw [List.flatten_cons, List.nil_append, List.flatten_cons, List.cons_append,
          ← List.flatten_cons, sections, hrest]
        simp [ht', ht]
      · next ht =>
        obtain ⟨second, others', rfl, hsecond, hothers⟩ := List.map_eq_cons_iff.1 h
        obtain ⟨t', first', rfl, ht', hfirst⟩ := List.map_eq_cons_iff.1 hsecond
        have hrest : sections (first' :: others').flatten = first' :: others' := by
          refine ih ?_
          rw [List.map_cons, List.map_cons, hothers]
          exact congrArg (· :: _) hfirst
        rw [List.flatten_cons, List.cons_append, ← List.flatten_cons, sections, hrest]
        simp [ht', ht]

/-- Sections read wherever they stand, and alike. -/
theorem readSections_shift {secs : List (List Tree)} {offset : Nat} {nodes : List Node}
    (h : readSections dialect offset secs = .ok nodes) (o : Nat) :
    ∃ nodes', readSections dialect o secs = .ok nodes' ∧ skeleton nodes' = skeleton nodes := by
  induction secs generalizing offset nodes o with
  | nil => exact ⟨[], rfl, by rw [← Except.ok.inj h]⟩
  | cons first others ih =>
      rw [readSections] at h
      split at h
      · cases h
      · next shapes hshapes =>
        cases hrest : readSections dialect (offset + addUp (first.map Tree.width)) others with
        | error f => simp [hrest, Except.map] at h
        | ok rest =>
            rw [hrest] at h
            obtain rfl := Except.ok.inj h
            obtain ⟨rest', hrest', hskeleton⟩ := ih hrest (o + addUp (first.map Tree.width))
            refine ⟨nodesAll o shapes ++ rest', ?_, ?_⟩
            · rw [readSections, hshapes]
              simp only
              rw [hrest']
              rfl
            · rw [skeleton_append, skeleton_append, hskeleton,
                (alike_nodesAll shapes o offset).skeletons]

end Tree

/-! ### Sections -/

/-- What becomes of sections when a tree in one of them is exchanged. -/
structure SectionsExchanged (dialect : Dialect) (secs : List (List Tree)) (site : Site)
    (offset : Nat) (c : Cursor) (new : List Tree) (found : List (List Shape))
    (secs' : List (List Tree)) (nodes' : List Node) : Prop where
  flat : ∃ before tree after x, secs.flatten = before ++ tree :: after ∧
    secs'.flatten = before ++ x :: after ∧ tree.role?.isSome = true ∧ Formed true false x
  tokens_eq : Tree.tokensAll secs'.flatten = site.replaced new
  flags_eq : secs'.map flags = secs.map flags
  border_eq : border secs' = border secs
  reads : readSections dialect offset secs' = .ok nodes'
  skeleton_eq : skeleton nodes' =
    c.before.map sketch ++ skeleton (nodesAll 0 found.flatten) ++ c.after.map sketch
  placed : ∃ earlier later, preorderAll nodes' = earlier ++
    preorderAll (nodesAll (offset + byteLength (charsOf site.left)) found.flatten) ++ later

def SectionsFocused (dialect : Dialect) (secs : List (List Tree)) (offset : Nat) (c : Cursor) :
    Prop :=
  ∃ site, Located (Tree.tokensAll secs.flatten) site offset c ∧
    ∀ new found, Fits dialect site.token new found →
      ∃ secs' nodes', SectionsExchanged dialect secs site offset c new found secs' nodes'

section

variable {tokens : List Token} {site : Site} {offset : Nat} {c : Cursor}

theorem Located.before (h : Located tokens site offset c) (later : List Token)
    (nodes : List Node) :
    Located (tokens ++ later) (site.within [] later) offset (c.within [] nodes) := by
  refine ⟨by simp [Site.tokens_within, h.tokens_eq], ?_, h.order⟩
  simp only [Site.within, List.nil_append]
  exact h.node_eq

/-- The end of a section is no place of a node. -/
theorem Located.dropEnd {e : Token} (he : isEnd e = true)
    (h : Located (tokens ++ [e]) site offset c) :
    ∃ right, site.right = right ++ [e] ∧
      Located tokens ⟨site.left, site.token, right⟩ offset c := by
  have hkind : e.kind = .stop ∨ e.kind = .border := by simpa [isEnd] using he
  have htokens := h.tokens_eq
  rw [Site.tokens] at htokens
  rcases List.eq_nil_or_concat site.right with hnil | ⟨right, last, hright⟩
  · -- the token would be the end itself, which has no node
    rw [hnil] at htokens
    obtain ⟨-, htoken⟩ := List.append_inj' htokens rfl
    have hnode := h.node_eq
    rw [← (List.cons.inj htoken).1] at hnode
    rcases hkind with hk | hk <;> simp [tokenShapes, hk, nodesAll, nodes] at hnode
  · rw [hright, List.concat_eq_append, ← List.cons_append, ← List.append_assoc] at htokens
    obtain ⟨hinit, hlast⟩ := List.append_inj' htokens rfl
    obtain rfl : e = last := (List.cons.inj hlast).1
    exact ⟨right, by rw [hright, List.concat_eq_append], hinit, h.node_eq, h.order⟩

end

/-- A section in which a token can be exchanged. -/
theorem focused_section {body : List Tree} (hbody : ∀ t ∈ body, Formed true true t) {e : Token}
    (he : isEnd e = true) {shapes : List Shape}
    (hread : Part.readAs dialect .section (readEach dialect (body ++ [.token e])) = .ok shapes)
    {offset : Nat} {c : Cursor} (hn : preorderAll (nodesAll offset shapes) = c.nodes)
    (hforeign : IsForeign c.node) :
    ∃ before tree after site, body = before ++ tree :: after ∧ tree.role?.isSome = true ∧
      Located (Tree.tokensAll body) site offset c ∧
      ∀ new found, Fits dialect site.token new found → ∃ x shapes',
        x.role?.isSome = true ∧ x.gap = tree.gap ∧ Formed true false x ∧
        Tree.tokensAll (before ++ x :: after) = site.replaced new ∧
        Part.readAs dialect .section (readEach dialect (before ++ x :: after ++ [.token e])) =
          .ok shapes' ∧ Renewed site offset c found shapes' := by
  obtain ⟨before, tree, rest, site, hrow, hrole, hloc, hexchange⟩ :=
    readAs_focused (rowSound_section hbody he) hread hn hforeign
  have hend : (Tree.token e).role?.isSome = false := by
    have hkind : e.kind = .stop ∨ e.kind = .border := by simpa [isEnd] using he
    rcases hkind with h | h <;> simp [role?, h]
  obtain ⟨after, rfl, hbodyEq⟩ : ∃ after, rest = after ++ [.token e] ∧
      body = before ++ tree :: after := by
    rcases append_eq_append_cons hrow with ⟨Z, rfl, hZ⟩ | ⟨Z, hZ, hafter⟩
    · obtain ⟨-, rfl, -⟩ := List.append_eq_singleton_iff.1 hZ.symm |>.resolve_right (by simp)
      rw [hend] at hrole
      cases hrole
    · exact ⟨Z, hafter, hZ⟩
  rw [Tree.tokensAll_append, show Tree.tokensAll [.token e] = [e] by simp] at hloc
  obtain ⟨right, hright, hbodyLoc⟩ := hloc.dropEnd he
  refine ⟨before, tree, after, ⟨site.left, site.token, right⟩, hbodyEq, hrole, hbodyLoc,
    fun new found hfits => ?_⟩
  obtain ⟨x, shapes', hx⟩ := hexchange new found hfits
  have hcons : before ++ x :: (after ++ [.token e]) = before ++ x :: after ++ [.token e] := by simp
  refine ⟨x, shapes', by rw [hx.role_eq]; exact hrole, hx.gap_eq, hx.formed, ?_,
    by rw [← hcons]; exact hx.reads, hx.renewed.skeleton_eq, hx.renewed.placed⟩
  have htokens := hx.tokens_eq
  rw [hcons, Tree.tokensAll_append, Site.replaced, hright, ← List.append_assoc] at htokens
  exact List.append_inj_left' htokens rfl

theorem focused_of_readSections {first : List Tree} {others : List (List Tree)}
    (hothers : ∀ l ∈ others, l ≠ []) {trees : List Tree} {stop : Token}
    (hstop : isEnd stop = true) (hflat : (first :: others).flatten = trees ++ [.token stop])
    (hformed : ∀ t ∈ trees, Formed true true t) {offset : Nat} {nodes : List Node}
    (h : readSections dialect offset (first :: others) = .ok nodes) {c : Cursor}
    (hn : preorderAll nodes = c.nodes) (hforeign : IsForeign c.node) :
    SectionsFocused dialect (first :: others) offset c := by
  induction others generalizing first trees offset nodes c with
  | nil =>
      obtain rfl : first = trees ++ [.token stop] := by simpa using hflat
      rw [readSections] at h
      split at h
      · cases h
      · next shapes hshapes =>
        simp only [border, List.append_nil] at hshapes
        obtain rfl : nodes = nodesAll offset shapes := by
          simpa [readSections, Except.map] using h.symm
        obtain ⟨before, tree, after, site, rfl, hrole, hloc, hexchange⟩ :=
          focused_section hformed hstop hshapes hn hforeign
        refine ⟨site.within [] [stop], ?_, fun new found hfits => ?_⟩
        · have hbefore := hloc.before [stop] []
          simpa [Cursor.within] using hbefore
        · obtain ⟨x, shapes', hx, hgap, hxform, htokens, hreads, hrenewed⟩ :=
            hexchange new found hfits
          refine ⟨[before ++ x :: after ++ [.token stop]], nodesAll offset shapes', ?_⟩
          refine ⟨⟨before, tree, after ++ [.token stop], x, by simp, by simp, hrole, hxform⟩, ?_,
            ?_, ?_, ?_, ?_, ?_⟩
          · rw [Site.replaced_within, ← htokens]
            simp
          · have hflags : flags (before ++ x :: (after ++ [.token stop])) =
                flags (before ++ tree :: (after ++ [.token stop])) := flags_exchange hrole hx
            simpa using hflags
          · cases before with
            | nil => simp [border, hgap]
            | cons b before => rfl
          · rw [readSections]
            simp only [border, List.append_nil]
            rw [hreads]
            simp [readSections, Except.map]
          · rw [(alike_nodesAll shapes' offset 0).skeletons]
            exact hrenewed.skeleton_eq
          · exact hrenewed.placed
  | cons second others ih =>
      obtain ⟨t, second, rfl⟩ := List.exists_cons_of_ne_nil (hothers second (by simp))
      obtain ⟨later, rfl, hlater⟩ := later_of_flatten hflat
      have hfirst : ∀ u ∈ first, Formed true true u := fun u hu => hformed u (by simp [hu])
      have hborder : isEnd ⟨.border, t.gap, []⟩ = true := rfl
      rw [readSections] at h
      split at h
      · cases h
      · next shapes hshapes =>
        cases hrest : readSections dialect (offset + addUp (first.map Tree.width))
            ((t :: second) :: others) with
        | error f => simp [hrest, Except.map] at h
        | ok rest =>
        rw [hrest] at h
        obtain rfl := Except.ok.inj h
        simp only [border] at hshapes
        have hchars := (section_recut hfirst hborder hshapes).chars
        obtain ⟨before, node, after⟩ := c
        rw [preorderAll_append, Cursor.nodes] at hn
        rcases append_eq_append_cons hn with ⟨Z, rfl, hZ⟩ | ⟨Z, hZ, rfl⟩
        · -- the node is in a later section
          obtain ⟨site, hloc, hexchange⟩ := ih (c := ⟨Z, node, after⟩)
            (fun l hl => hothers l (by simp [hl])) hlater
            (fun u hu => hformed u (by simp [hu])) hrest hZ hforeign
          rw [addUp_width] at hloc
          have hwithin : Located (Tree.tokensAll first ++
              Tree.tokensAll ((t :: second) :: others).flatten ++ [])
              (site.within (Tree.tokensAll first) []) offset _ := hloc.within (D := []) hchars 0
          refine ⟨site.within (Tree.tokensAll first) [], ?_, fun new found hfits => ?_⟩
          · simpa [Cursor.within] using hwithin
          · obtain ⟨secs', nodes', hx⟩ := hexchange new found hfits
            obtain ⟨left, tree, right, x, hsecs, hsecs', hrole, hxform⟩ := hx.flat
            refine ⟨first :: secs', nodesAll offset shapes ++ nodes', ?_⟩
            refine ⟨⟨first ++ left, tree, right, x, ?_, ?_, hrole, hxform⟩, ?_, ?_, ?_, ?_, ?_, ?_⟩
            · rw [List.flatten_cons, hsecs]
              simp
            · rw [List.flatten_cons, hsecs']
              simp
            · rw [List.flatten_cons, Tree.tokensAll_append, hx.tokens_eq, Site.replaced_within]
              simp
            · rw [List.map_cons, hx.flags_eq]
              rfl
            · cases first <;> rfl
            · rw [readSections, hx.border_eq]
              simp only [border]
              rw [hshapes]
              simp only
              rw [hx.reads]
              rfl
            · rw [skeleton_append, hx.skeleton_eq]
              simp [skeleton]
            · obtain ⟨earlier, later, hplaced⟩ := hx.placed
              rw [addUp_width, Nat.add_assoc, ← byteLength_append, ← charsOf_append] at hplaced
              exact ⟨preorderAll (nodesAll offset shapes) ++ earlier, later, by
                rw [preorderAll_append, hplaced]
                simp [Site.within]⟩
        · -- the node is in this section
          obtain ⟨left, tree, right, site, rfl, hrole, hloc, hexchange⟩ :=
            focused_section hfirst hborder hshapes (c := ⟨before, node, Z⟩) hZ hforeign
          refine ⟨site.within [] (Tree.tokensAll ((t :: second) :: others).flatten), ?_,
            fun new found hfits => ?_⟩
          · have hbefore := hloc.before (Tree.tokensAll ((t :: second) :: others).flatten)
              (preorderAll rest)
            simpa [Cursor.within] using hbefore
          · obtain ⟨x, shapes', hx, hgap, hxform, htokens, hreads, hrenewed⟩ :=
              hexchange new found hfits
            obtain ⟨rest', hrest', hskeleton⟩ := readSections_shift hrest
              (offset + addUp ((left ++ x :: right).map Tree.width))
            refine ⟨(left ++ x :: right) :: (t :: second) :: others,
              nodesAll offset shapes' ++ rest', ?_⟩
            refine ⟨⟨left, tree, right ++ ((t :: second) :: others).flatten, x, by simp, by simp,
              hrole, hxform⟩, ?_, ?_, ?_, ?_, ?_, ?_⟩
            · rw [Site.replaced_within, ← htokens]
              simp
            · rw [List.map_cons, List.map_cons, flags_exchange hrole hx]
              rfl
            · cases left with
              | nil => simp [border, hgap]
              | cons b left => rfl
            · rw [readSections]
              simp only [border]
              rw [hreads]
              simp only
              rw [hrest']
              rfl
            · rw [skeleton_append, hskeleton, (alike_nodesAll shapes' offset 0).skeletons,
                hrenewed.skeleton_eq]
              simp [skeleton]
            · obtain ⟨earlier, later, hplaced⟩ := hrenewed.placed
              exact ⟨earlier, later ++ preorderAll rest', by
                rw [preorderAll_append, hplaced, List.append_assoc]
                rfl⟩

/-- Where the token of a run of text or of the value of an attribute is in a file, and that the file
still reads with other trees in its place. -/
theorem parse_exchange {text : List Char} {nodes : List Node}
    (h : parse dialect text = .ok nodes) {c : Cursor} (hn : preorderAll nodes = c.nodes)
    (hforeign : IsForeign c.node) :
    ∃ site, Located (tokens (dialect == .markup) text) site 0 c ∧
      ∀ new found, Fits dialect site.token new found → ∀ text',
        tokens (dialect == .markup) text' = site.replaced new →
        ∃ nodes', parse dialect text' = .ok nodes' ∧
          skeleton nodes' = c.before.map sketch ++ skeleton (nodesAll 0 found.flatten) ++
            c.after.map sketch ∧
          ∃ earlier later, preorderAll nodes' = earlier ++
            preorderAll (nodesAll (byteLength (charsOf site.left)) found.flatten) ++ later := by
  obtain ⟨body, gap, htokens, hproper⟩ := tokens_isProper (dialect == .markup) text
  rw [parse, htokens] at h
  have hreads := reads_of_readSections h
  rw [flatten_sections] at hreads
  obtain ⟨trees, htrees, hbody, hformed⟩ := ofTokens_of_reads hproper (by rfl) (by rfl) hreads
  rw [htrees] at h
  obtain ⟨first, others, hsecs, hothers⟩ := sections_eq (trees ++ [.token ⟨.stop, gap, []⟩])
  have hflat := flatten_sections (trees ++ [.token ⟨.stop, gap, []⟩])
  rw [hsecs] at h hflat
  obtain ⟨site, hloc, hexchange⟩ :=
    focused_of_readSections (fun l hl => (hothers l hl).ne_nil) (by rfl) hflat hformed h hn hforeign
  refine ⟨site, ?_, fun new found hfits text' htext' => ?_⟩
  · rw [hflat, Tree.tokensAll_append, hbody] at hloc
    rw [htokens]
    simpa using hloc
  · obtain ⟨secs', nodes', hx⟩ := hexchange new found hfits
    obtain ⟨before, tree, after, x, hold, hnew, hrole, hxform⟩ := hx.flat
    obtain ⟨rest, hrest, htreesEq⟩ : ∃ rest, after = rest ++ [.token ⟨.stop, gap, []⟩] ∧
        trees = before ++ tree :: rest := by
      rw [hflat] at hold
      rcases append_eq_append_cons hold with ⟨Z, rfl, hZ⟩ | ⟨Z, hZ, hafter⟩
      · obtain ⟨-, rfl, -⟩ := List.append_eq_singleton_iff.1 hZ.symm |>.resolve_right (by simp)
        simp [role?] at hrole
      · exact ⟨Z, hafter, hZ⟩
    have hformed' : ∀ t ∈ before ++ x :: rest, Formed true true t := by
      intro t ht
      rw [List.mem_append, List.mem_cons] at ht
      rcases ht with ht | rfl | ht
      · exact hformed t (by simp [htreesEq, ht])
      · exact hxform.top
      · exact hformed t (by simp [htreesEq, ht])
    have hofTokens : ofTokens (Tree.tokensAll (before ++ x :: rest) ++ [⟨.stop, gap, []⟩]) =
        before ++ x :: rest ++ [.token ⟨.stop, gap, []⟩] :=
      ofTokens_concat hformed' (by rfl) (by rfl)
    refine ⟨nodes', ?_, hx.skeleton_eq, by simpa using hx.placed⟩
    have htokens' : tokens (dialect == .markup) text' =
        Tree.tokensAll (before ++ x :: rest) ++ [⟨.stop, gap, []⟩] := by
      rw [htext', ← hx.tokens_eq, hnew, hrest]
      simp
    have hsecs' : before ++ x :: rest ++ [.token ⟨.stop, gap, []⟩] = secs'.flatten := by
      rw [hnew, hrest]
      simp
    rw [parse, htokens', hofTokens, hsecs', sections_of_flags (hx.flags_eq.trans (by rw [hsecs]))]
    exact hx.reads

end Phrasebook.Source
