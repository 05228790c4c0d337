import Phrasebook.Proofs.DiffPatch
import Phrasebook.Proofs.ExitCode
import Phrasebook.Proofs.LineEnd

/-!
Dry runs. A dry run shows the difference that a patch would make. Read back and applied to the file,
the difference gives the patched text, if the file ends in a line feed or keeps its last line.
Otherwise the last line and its replacement are run together and the difference fits nothing. This
is so for files whose lines end in line feeds only: where another character ends a line for the
difference, its lines are not those of the file.
-/

namespace Phrasebook

open Text Source

/-! ### The end of a patched file -/

namespace Edit

/-- The edit puts something in, and no line feed at the end of the text. -/
def LeavesEnd (text : List Char) (e : Edit) : Prop :=
  e.replacement ≠ [] ∧ (e.replacement.getLast? = some '\n' → e.stop < byteLength text)

theorem leavesEnd_of_isInline {text : List Char} {e : Edit} (hne : e.replacement ≠ [])
    (h : IsInline e.replacement) : LeavesEnd text e :=
  ⟨hne, fun hlast => absurd rfl (h '\n' (List.mem_of_getLast? hlast)).1⟩

/-- Edits that leave the end of a text without a line feed as it is. -/
theorem Spliced.unended {text : List Char} {offset : Nat} {edits : List Edit}
    {rest result : List Char} (h : Spliced offset edits rest result)
    (hedits : ∀ e ∈ edits, e.LeavesEnd text) (hlength : offset + byteLength rest = byteLength text)
    (hrest : rest.getLast? ≠ some '\n') :
    result.getLast? ≠ some '\n' ∧ (edits ≠ [] → result ≠ []) := by
  induction h with
  | nil => exact ⟨hrest, fun hne => absurd rfl hne⟩
  | @cons offset e edits kept old rest result start stop later ih =>
    obtain ⟨⟨hne, hend⟩, hedits⟩ := List.forall_mem_cons.1 hedits
    rw [byteLength_append, byteLength_append] at hlength
    have hrest' : rest.getLast? ≠ some '\n' := by
      intro hlast
      rw [List.getLast?_append, hlast] at hrest
      exact hrest rfl
    obtain ⟨hresult, hkept⟩ := ih hedits (by omega) hrest'
    refine ⟨?_, fun _ => by simp [hne]⟩
    by_cases hnil : result = []
    · -- nothing follows, so the edit is at the end
      subst hnil
      have hedits' : edits = [] := by
        by_contra hsome
        exact hkept hsome rfl
      subst hedits'
      cases later with
      | nil =>
        rw [List.append_nil, List.getLast?_append_of_ne_nil _ hne]
        intro hlast
        have hstop := hend hlast
        rw [stop] at hstop
        simp only [byteLength_nil] at hlength
        omega
    · rwa [List.getLast?_append_of_ne_nil _ hnil]

end Edit

namespace Source.Document

variable {d : Document}

theorem Laid.start_lt (hd : d.Laid) {n : Node} (hn : n ∈ d.nodes) :
    n.start < byteLength d.text := by
  obtain ⟨before, own, after, htext, hstart, hne⟩ : ∃ before own after,
      d.text = before ++ own ++ after ∧ n.start = byteLength before ∧ own ≠ [] := by
    rcases hd.isCrisp_or_hashBang hn with hcrisp | hbang
    · obtain ⟨before, own, after, htext, hstart, -, hne, -⟩ := hd.crisp (mem_all hn) hcrisp
      exact ⟨before, own, after, htext, hstart, hne⟩
    · obtain ⟨before, own, after, htext, hstart, -, hspelled⟩ := hd.spelled n (mem_all hn)
      have hgrounded := hd.grounded n (mem_all hn)
      refine ⟨before, own, after, htext, hstart, ?_⟩
      cases n with
      | leaf kind start text =>
        obtain rfl : kind = .hashBang := by simpa [Node.isLeaf] using hbang
        obtain rfl : own = text := hspelled
        rintro rfl
        cases hgrounded.1
      | _ => cases hbang
  have hpos := byteLength_pos hne
  rw [htext, hstart, byteLength_append, byteLength_append]
  omega

theorem render_concat (b : ImportBinding) (style : ImportStyle) :
    ∃ front, b.render style = front ++ style.quote :: style.semicolon :=
  ⟨_, rfl⟩

/-- A declaration of its own ends with a quote or a semicolon. -/
theorem Laid.leavesEnd_render (hd : d.Laid) (b : ImportBinding) (start stop : Int)
    (front : List Char) :
    Edit.LeavesEnd d.text ⟨start, stop, front ++ b.render d.importStyle⟩ := by
  obtain ⟨hquote, hsemicolon, -, -⟩ := hd.importStyle_inline
  obtain ⟨head, hrender⟩ := render_concat b d.importStyle
  have hmark : d.importStyle.quote ≠ '\n' ∧ d.importStyle.quote ≠ '\r' := by
    constructor <;> intro heq <;> rw [heq] at hquote <;> exact absurd hquote (by decide)
  have htail : IsInline (d.importStyle.quote :: d.importStyle.semicolon) :=
    isInline_cons.2 ⟨hmark, hsemicolon⟩
  refine ⟨by simp [hrender], fun hlast => ?_⟩
  have hlast' : (front ++ b.render d.importStyle).getLast? = some '\n' := hlast
  rw [hrender, ← List.append_assoc,
    List.getLast?_append_of_ne_nil _ (List.cons_ne_nil _ _)] at hlast'
  exact absurd rfl (htail '\n' (List.mem_of_getLast? hlast')).1

theorem Laid.leavesEnd_insertDeclaration (hd : d.Laid) (b : ImportBinding) {n : Node}
    (hn : n ∈ d.all) :
    Edit.LeavesEnd d.text (d.insertDeclaration d.importStyle (b.render d.importStyle)) := by
  obtain ⟨head, hrender⟩ := render_concat b d.importStyle
  have hne (back : List Char) : b.render d.importStyle ++ back ≠ [] := by simp [hrender]
  rcases d.insertDeclaration_cases d.importStyle (b.render d.importStyle) with
    ⟨target, below, hdrop, hplace⟩ | ⟨anchor, -, -, hplace⟩ | ⟨hnodes, -⟩
  · have htarget : target ∈ d.nodes := by
      have hmem : target ∈ d.nodes.drop d.aboveLength := by simp [hdrop]
      exact List.mem_of_mem_drop hmem
    have hstart := hd.start_lt htarget
    -- the new line stands above a statement, so it is not the last one
    rcases hplace with ⟨-, hplace⟩ | hplace
    · rw [hplace]
      refine ⟨hne _, fun _ => ?_⟩
      have hline : d.lineStart target.start ≤ target.start := Nat.sub_le _ _
      show ((d.lineStart target.start : Nat) : Int) < (byteLength d.text : Nat)
      omega
    · rw [hplace]
      exact ⟨hne _, fun _ => Int.ofNat_lt.2 hstart⟩
  · rw [hplace]
    exact hd.leavesEnd_render b _ _ _
  · simp [all, hnodes] at hn

theorem Laid.leavesEnd_ensureImport (hd : d.Laid) {b : ImportBinding} {e : Edit}
    (h : d.ensureImport b = .ok (some e)) (hsymbol : IsInline b.symbol) (hne : b.symbol ≠ [])
    {n : Node} (hn : n ∈ d.all) : Edit.LeavesEnd d.text e := by
  obtain ⟨-, -, hpadding, -⟩ := hd.importStyle_inline
  have hclause := isInline_clause hsymbol hpadding
  have hclauseNe : b.clause d.importStyle ≠ [] := by
    unfold ImportBinding.clause
    cases b.kind with
    | default => exact hne
    | named => simp
  rcases ensureImport_cases h with ⟨m, -, -, hedit | rfl⟩ | rfl
  · rcases augment_cases hedit with
      rfl | ⟨_, -, rfl | ⟨_, -, ⟨-, rfl⟩ | ⟨_, -, rfl⟩⟩ | ⟨_, -, rfl⟩⟩
    all_goals
      refine Edit.leavesEnd_of_isInline ?_ ?_
      · simp [insertion, hclauseNe]
      · simp [insertion, hclause, hsymbol]
  · exact hd.leavesEnd_render b _ _ _
  · exact hd.leavesEnd_insertDeclaration b hn

end Source.Document

theorem Target.symbol_ne_nil {t : Target} {b : ImportBinding} (h : t.binding = .ok (some b)) :
    b.symbol ≠ [] := by
  unfold binding at h
  simp only at h
  split at h
  · cases h
  · next hasked =>
    simp only [Bool.or_eq_true, List.isEmpty_iff, not_or] at hasked
    split at h
    · obtain rfl := Option.some.inj (Except.ok.inj h)
      exact hasked.2
    · cases h

/-- A file that does not end in a line feed does not after a patch. -/
theorem Patch.unended_of_render {w : Workspace} {root : Option Path} {t : Target} {r : Rendering}
    (h : render w root t = .ok r) (hbefore : r.before.getLast? ≠ some '\n') :
    r.before ≠ [] ∧ r.after ≠ [] ∧ r.after.getLast? ≠ some '\n' := by
  obtain ⟨call, text, hrenders⟩ := renders_of_renderBy h
  obtain ⟨rfl, d, l, found, hparse, hlocate, -, hfound, hedit⟩ :=
    edited_of_renderText hrenders.renders
  have hd := Document.laid_of_parse hparse
  have htext : d.text = r.before := Document.text_of_parse hparse
  obtain ⟨n, hn, hl⟩ := Document.mem_literals_of_locate hlocate
  obtain ⟨f, hcallee, hcall⟩ := Call.render_eq_ok hrenders.named
  have himports : ∀ e ∈ found, d.Admits e ∧ e.LeavesEnd d.text := by
    intro e he
    obtain ⟨b, hbinding, hensure⟩ := hfound e he
    obtain ⟨-, hsymbol⟩ := Target.isInline_binding hcallee hbinding
    exact ⟨hd.admits_ensureImport hensure,
      hd.leavesEnd_ensureImport hensure hsymbol (Target.symbol_ne_nil hbinding) hn⟩
  have hedits : ∀ e ∈ Edit.ofLiteral l call :: found.toList, e.LeavesEnd d.text := by
    refine List.forall_mem_cons.2 ⟨?_, fun e he => (himports e (Option.mem_toList.1 he)).2⟩
    refine Edit.leavesEnd_of_isInline ?_
      (Document.isInline_ofLiteral (Call.isInline_render hrenders.named) l)
    rw [hcall, Edit.ofLiteral]
    repeat' split
    all_goals simp
  obtain ⟨result, hresult, hspliced⟩ := hd.apply_ofLiteral hn hl call found
    fun e he => (himports e he).1
  rw [htext] at hresult
  obtain rfl := Except.ok.inj (hresult.symm.trans hedit)
  have hperm := List.mergeSort_perm (Edit.ofLiteral l call :: found.toList) Edit.precedes
  obtain ⟨hlast, hne⟩ := hspliced.unended (fun e he => hedits e (hperm.mem_iff.1 he))
    (Nat.zero_add _) (htext ▸ hbefore)
  refine ⟨?_, hne fun hnil => ?_, hlast⟩
  · obtain ⟨m, hm, -⟩ := Node.mem_preorderAll.1 hn
    have hstart := hd.start_lt hm
    intro hnil
    rw [htext, hnil] at hstart
    exact absurd hstart (Nat.not_lt_zero _)
  · have hlength := hperm.length_eq
    rw [show List.mergeSort _ _ = _ from hnil] at hlength
    simp at hlength

/-- A patch that imports nothing makes one edit. -/
theorem Patch.renderText_of_locate {parse : Parser} {path : Path} {text call after : List Char}
    {t : Target} {l : Literal}
    (hlocate : (parse (some path.toString) text).toOption.map
      (fun d => d.locate t.text t.line t.column) = some (.ok (some l)))
    (hbinding : t.binding = .ok none)
    (hedit : Edit.apply text [Edit.ofLiteral l call] = .ok after) :
    renderText parse path text t call = .ok ⟨path, text, after, false⟩ := by
  cases hparse : parse (some path.toString) text with
  | error f =>
    rw [hparse] at hlocate
    cases hlocate
  | ok d =>
    rw [hparse] at hlocate
    have hfound : d.locate t.text t.line t.column = .ok (some l) := Option.some.inj hlocate
    have hedits : edits d path t call = .ok ([Edit.ofLiteral l call], false) := by
      rw [edits, hfound, hbinding]
      rfl
    rw [renderText, hparse]
    simp only [hedits, bind, Except.bind, hedit]
    rfl

/-! ### Lines of a text -/

namespace Text

open Diff (EndsInFeed Ended)

/-- Only line feeds end lines: other characters that could end one are carriage returns in front of
line feeds. -/
def endsInFeeds : List Char → Bool
  | [] => true
  | c :: rest =>
      (!endsLine c || c == '\n' || c == '\r' && rest.head? == some '\n') && endsInFeeds rest

theorem endsInFeeds_of_cons {c : Char} {rest : List Char} (h : endsInFeeds (c :: rest) = true) :
    endsInFeeds rest = true := by
  rw [endsInFeeds, Bool.and_eq_true] at h
  exact h.2

theorem keptLines_eq_fedLines {text : List Char} (h : endsInFeeds text = true) :
    keptLines text = fedLines text := by
  fun_induction keptLines text with
  | case1 => rfl
  | case2 rest ih =>
    rw [ih (endsInFeeds_of_cons (endsInFeeds_of_cons h))]
    rfl
  | case3 c rest hpair hends ih =>
    have hfeed : c = '\n' := by
      simp only [endsInFeeds, Bool.and_eq_true, Bool.or_eq_true, Bool.not_eq_true', beq_iff_eq,
        hends] at h
      rcases h.1 with (hc | hc) | ⟨rfl, hhead⟩
      · cases hc
      · exact hc
      · obtain ⟨after, rfl⟩ := List.head?_eq_some_iff.1 hhead
        exact absurd rfl (hpair after rfl)
    rw [fedLines, if_pos hfeed, ih (endsInFeeds_of_cons h)]
  | case4 c rest hpair hends hnil ih =>
    have hc : c ≠ '\n' := by
      rintro rfl
      exact hends rfl
    rw [fedLines, if_neg hc, ← ih (endsInFeeds_of_cons h), hnil]
  | case5 c rest hpair hends line lines hcons ih =>
    have hc : c ≠ '\n' := by
      rintro rfl
      exact hends rfl
    rw [fedLines, if_neg hc, ← ih (endsInFeeds_of_cons h), hcons]

theorem getLast?_of_fedLines {text l : List Char} (h : (fedLines text).getLast? = some l) :
    l.getLast? = text.getLast? := by
  obtain ⟨init, hlines⟩ := List.getLast?_eq_some_iff.1 h
  have hne : l ≠ [] := (isOneLine_of_mem_fedLines l (List.mem_of_getLast? h)).1
  conv_rhs => rw [← flatten_fedLines text, hlines]
  rw [List.flatten_append, List.flatten_singleton, List.getLast?_append_of_ne_nil _ hne]

theorem endsInFeed_of_mem_fedLines {text : List Char} (h : text.getLast? = some '\n') :
    ∀ l ∈ fedLines text, EndsInFeed l := by
  intro l hl
  obtain ⟨init, last, hlines⟩ : ∃ init last, fedLines text = init ++ [last] :=
    ⟨_, _, (List.dropLast_concat_getLast (List.ne_nil_of_mem hl)).symm⟩
  have hended := ended_fedLines text
  rw [hlines] at hl hended
  rcases List.mem_append.1 hl with hl | hl
  · exact hended.left_of_append (by simp) l hl
  · obtain rfl := List.mem_singleton.1 hl
    rw [EndsInFeed, getLast?_of_fedLines (by rw [hlines, List.getLast?_concat]), h]

theorem exists_last_line {text : List Char} (hne : text ≠ []) (h : text.getLast? ≠ some '\n') :
    ∃ init l, fedLines text = init ++ [l] ∧ ¬ EndsInFeed l := by
  have hlines : fedLines text ≠ [] := by
    intro hnil
    rw [← flatten_fedLines text, hnil] at hne
    exact hne rfl
  refine ⟨_, _, (List.dropLast_concat_getLast hlines).symm, ?_⟩
  rw [EndsInFeed, getLast?_of_fedLines (List.getLast?_eq_some_getLast hlines)]
  exact h

end Text

/-! ### Dry runs -/

namespace Command

variable {w : Workspace} {s : Settings} {c : WrapCommand} {r : Patch.Rendering}

theorem runWrap_of_dryRun (hdry : c.dryRun = true)
    (h : Patch.render w (wrapRoot c) (wrapTarget s c) = .ok r) (hdiff : patchDiff r ≠ []) :
    runWrap w s c = (.said 0 (patchDiff r ++ ['\n']), w.store) := by
  unfold wrapRoot at h
  simp [runWrap, hdry, h, hdiff]

/-- A dry run says what difference the patch would make and changes nothing. Applied to the file,
the difference gives the patched text just if the file ends in a line feed or keeps its last
line. -/
theorem dryRun_applies_iff (hdry : c.dryRun = true)
    (h : Patch.render w (wrapRoot c) (wrapTarget s c) = .ok r) (hchanged : r.after ≠ r.before)
    (hpath : '\n' ∉ r.path.toString.toList) (hbefore : endsInFeeds r.before = true)
    (hafter : endsInFeeds r.after = true) :
    runWrap w s c = (.said 0 (patchDiff r ++ ['\n']), w.store) ∧
      (Diff.applyTo (patchDiff r) r.before = some r.after ↔
        r.before.getLast? = some '\n' ∨
          (fedLines r.before).getLast? = (fedLines r.after).getLast?) := by
  have hdiff : patchDiff r =
      Diff.unified r.path.toString (fedLines r.before) (fedLines r.after) := by
    rw [patchDiff, keptLines_eq_fedLines hbefore, keptLines_eq_fedLines hafter]
  refine ⟨runWrap_of_dryRun hdry h ?_, ?_⟩
  · rw [hdiff]
    refine Diff.unified_ne_nil fun heq => hchanged ?_
    rw [← flatten_fedLines r.after, ← heq, flatten_fedLines]
  rw [hdiff]
  by_cases hfeed : r.before.getLast? = some '\n'
  · refine iff_of_true (Diff.applyTo_unified hpath fun step _ _ x hx => ?_) (.inl hfeed)
    exact endsInFeed_of_mem_fedLines hfeed x (Diff.slice_subset.subset hx)
  · obtain ⟨hbne, hane, hafeed⟩ := Patch.unended_of_render h hfeed
    obtain ⟨init, x, hx, hxfeed⟩ := exists_last_line hbne hfeed
    obtain ⟨init', y, hy, hyfeed⟩ := exists_last_line hane hafeed
    have hb := ended_fedLines r.before
    have ha := ended_fedLines r.after
    have hxlast : (fedLines r.before).getLast? = some x := by rw [hx, List.getLast?_concat]
    have hylast : (fedLines r.after).getLast? = some y := by rw [hy, List.getLast?_concat]
    by_cases hxy : x = y
    · subst hxy
      refine iff_of_true (Diff.applyTo_unified hpath ?_) (.inr (hxlast.trans hylast.symm))
      rw [hx] at hb ⊢
      rw [hy] at ha ⊢
      exact Diff.steps_replaces_of_last hxfeed hb ha
    · refine iff_of_false ?_ ?_
      · rw [Diff.applyTo_unified_eq_none hpath hxlast hylast hxfeed hyfeed hxy]
        exact nofun
      · rintro (hlast | hlast)
        · exact hfeed hlast
        · exact hxy (Option.some.inj (hxlast.symm.trans (hlast.trans hylast)))

def wrapSave : WrapCommand where
  file := "a.tsx".toList
  line := 1
  column := 2
  text := "Save".toList
  key := "k".toList
  functionName := none
  importSource := none
  importKind := none
  skipImport := true
  projectRoot := none
  dryRun := true

def oneFile (text : List Char) : Workspace :=
  ⟨Store.empty.place ["w", "a.tsx"] (.leaf (.file (Utf8.encode text))), ⟨"/", ["w"]⟩,
    ⟨"/", ["h"]⟩, []⟩

/-- The file with a call that ends as given. -/
theorem render_wrapSave {back : List Char}
    (hback : back = ";\ng()".toList ∨ back = [] ∨ back = "; //\x0c\n".toList) :
    Patch.render (oneFile ("f(\"Save\")".toList ++ back)) (wrapRoot wrapSave)
        (wrapTarget Settings.default wrapSave) =
      .ok ⟨⟨"/", ["w", "a.tsx"]⟩, "f(\"Save\")".toList ++ back, "f(t(\"k\"))".toList ++ back,
        false⟩ := by
  let path : Path := ⟨"/", ["w", "a.tsx"]⟩
  let t := wrapTarget Settings.default wrapSave
  let call := "t(\"k\")".toList
  let l : Literal :=
    { kind := .string, value := Points.ofString "Save", position := ⟨1, 2⟩, span := ⟨2, 8⟩,
      content := ⟨2, 8⟩, inAttribute := false, isKey := false }
  have hmet : t.lacks? = none := by decide +kernel
  have hnamed : Call.render t.functionName (strip t.key) = .ok call := by decide +kernel
  have hpath : Patch.locateFile (oneFile ("f(\"Save\")".toList ++ back)) none t.filePath =
      .ok path := by
    rcases hback with rfl | rfl | rfl <;> decide +kernel
  have hreads : (oneFile ("f(\"Save\")".toList ++ back)).store.readText path =
      .ok ("f(\"Save\")".toList ++ back) := by
    rcases hback with rfl | rfl | rfl <;> decide +kernel
  have hlocate : (Document.parse (some path.toString)
      ("f(\"Save\")".toList ++ back)).toOption.map
        (fun d => d.locate t.text t.line t.column) = some (.ok (some l)) := by
    rcases hback with rfl | rfl | rfl <;> decide +kernel
  have hedit : Edit.apply ("f(".toList ++ "\"Save\"".toList ++ (")".toList ++ back))
      [Edit.ofLiteral l call] = _ := Edit.apply_one rfl rfl
  exact (Patch.renderBy_eq _ hmet hnamed rfl hpath hreads).trans
    (Patch.renderText_of_locate hlocate rfl hedit)

/-- Two files that do not end in a line feed: the last line of one is kept, that of the other is
replaced. -/
theorem dryRun_applies_iff_unended :
    (∃ r, Patch.render (oneFile "f(\"Save\");\ng()".toList) (wrapRoot wrapSave)
          (wrapTarget Settings.default wrapSave) = .ok r ∧
        r.after = "f(t(\"k\"));\ng()".toList ∧ r.after ≠ r.before ∧
        '\n' ∉ r.path.toString.toList ∧ endsInFeeds r.before = true ∧
        endsInFeeds r.after = true ∧ Diff.applyTo (patchDiff r) r.before = some r.after) ∧
      ∃ r, Patch.render (oneFile "f(\"Save\")".toList) (wrapRoot wrapSave)
          (wrapTarget Settings.default wrapSave) = .ok r ∧
        r.after = "f(t(\"k\"))".toList ∧ r.after ≠ r.before ∧
        '\n' ∉ r.path.toString.toList ∧ endsInFeeds r.before = true ∧
        endsInFeeds r.after = true ∧ Diff.applyTo (patchDiff r) r.before ≠ some r.after := by
  have hpath : '\n' ∉ (⟨"/", ["w", "a.tsx"]⟩ : Path).toString.toList := by decide +kernel
  constructor
  · have hrender := render_wrapSave (.inl rfl)
    have happlies := (dryRun_applies_iff rfl hrender (by decide) hpath rfl rfl).2
    exact ⟨_, hrender, rfl, by decide, hpath, rfl, rfl, happlies.2 (.inr (by decide +kernel))⟩
  · have hrender := render_wrapSave (.inr (.inl rfl))
    have happlies := (dryRun_applies_iff rfl hrender (by decide) hpath rfl rfl).2
    refine ⟨_, hrender, rfl, by decide, hpath, rfl, rfl, fun h => ?_⟩
    exact absurd (happlies.1 h) (by decide +kernel)

/-- A form feed ends a line for the difference but not for the file: although every line of the file
ends in a line feed, the difference does not give the patched text. -/
theorem dryRun_formFeed :
    ∃ r, Patch.render (oneFile "f(\"Save\"); //\x0c\n".toList) (wrapRoot wrapSave)
        (wrapTarget Settings.default wrapSave) = .ok r ∧
      r.after = "f(t(\"k\")); //\x0c\n".toList ∧ r.after ≠ r.before ∧
      '\n' ∉ r.path.toString.toList ∧ r.before.getLast? = some '\n' ∧
      patchDiff r = ("--- /w/a.tsx\n+++ /w/a.tsx\n@@ -1,2 +1,2 @@\n" ++
        "-f(\"Save\"); //\x0c+f(t(\"k\")); //\x0c \n").toList ∧
      Diff.applyTo (patchDiff r) r.before ≠ some r.after :=
  ⟨_, render_wrapSave (.inr (.inr rfl)), rfl, by decide, by decide +kernel, by decide,
    by decide +kernel, by decide +kernel⟩

end Command

end Phrasebook
