import Phrasebook.Proofs.ImportPlace

/-!
What an import removes. The edit that makes sure of a binding removes nothing, or else a list of
imports without specifiers: its braces, with the white space, the commas and the comments in them.
So specifiers are never lost, and comments only in such a list.
-/

namespace Phrasebook

open Text Source

/-- A node comes all before an edit, or all behind it. -/
def Edit.Leaves (e : Edit) (n : Node) : Prop := (n.stop : Int) ≤ e.start ∨ e.stop ≤ n.start

namespace Source

theorem Fills.areBlank_iff {children : List Node} {inner : List Char} (h : Fills children inner) :
    AreBlank inner ↔ children = [] ∧ ',' ∉ inner := by
  refine ⟨fun hblank => ⟨?_, fun hcomma => ?_⟩, fun ⟨hchildren, hcomma⟩ c hc => ?_⟩
  · by_contra hne
    cases hblank '/' (h.marked hne)
  · cases hblank ',' hcomma
  · refine (h.plain hchildren c hc).resolve_right ?_
    rintro rfl
    exact hcomma hc

namespace Document

variable {d : Document}

/-- What is removed with a list of imports. -/
theorem Laid.removed_of_empties (hd : d.Laid) {e : Edit} {m : Node} (h : d.Empties e m)
    {before old after : List Char} (htext : d.text = before ++ old ++ after)
    (hstart : e.start = byteLength before)
    (hstop : e.stop = (byteLength before + byteLength old : Nat)) :
    ∃ inner, old = '\x7b' :: inner ++ ['\x7d'] ∧ Fills m.children inner := by
  obtain ⟨before', own, after', htext', hstart', hstop', hspelled⟩ := hd.spelled m h.mem
  -- the edit and the list have the same ends
  have hown : old = own := by
    have hspan : (⟨byteLength before, byteLength before + byteLength old⟩ : Span) =
        ⟨byteLength before', byteLength before' + byteLength own⟩ := by
      have hs := h.start
      have hp := h.stop
      rw [Span.mk.injEq]
      omega
    rw [← excerpt_append before old after, ← htext, hspan, htext', excerpt_append]
  have hbraces := h.braces
  have hempty := h.empty
  cases m with
  | branch kind span children =>
      obtain rfl : kind = .namedImports := by simpa [Node.isBranch] using hbraces
      obtain ⟨-, -, inner, hinner, hfills⟩ := hspelled
      exact ⟨inner, hown.trans hinner, hfills hempty⟩
  | _ => cases hbraces

end Document

end Source

/-- The edit that makes sure of a binding removes nothing, or a list of imports without specifiers.
Every specifier is left, and every comment but those in that list. No more than the braces and white
space is removed exactly if there is neither a comment nor a comma in the list. -/
theorem import_removes_list {path : Option String} {text : List Char} {d : Document}
    {b : ImportBinding} {e : Edit} (hparse : Document.parse path text = .ok d)
    (himport : d.ensureImport b = .ok (some e)) :
    ∃ before old after, text = before ++ old ++ after ∧ e.start = byteLength before ∧
      e.stop = (byteLength before + byteLength old : Nat) ∧
      Edit.apply text [e] = .ok (before ++ e.replacement ++ after) ∧
      (old = [] ∨ ∃ m inner, d.Empties e m ∧ old = '\x7b' :: inner ++ ['\x7d'] ∧ IsFiller inner) ∧
      (∀ n ∈ d.all, n.isSpecifier = true → e.Leaves n) ∧
      (∀ n ∈ d.all, n.isComment = true → e.Leaves n ∨ ∃ m, d.Empties e m ∧ n ∈ m.children) ∧
      ((old = [] ∨ ∃ inner, old = '\x7b' :: inner ++ ['\x7d'] ∧ AreBlank inner) ↔
        ∀ m, d.Empties e m → m.children = [] ∧ ',' ∉ old) := by
  have hd := Document.laid_of_parse hparse
  have hadmits := hd.admits_ensureImport himport
  obtain ⟨before, old, after, htext, hstart, hstop⟩ := hadmits.fits
  have hremoved : ∀ m, d.Empties e m →
      ∃ inner, old = '\x7b' :: inner ++ ['\x7d'] ∧ Fills m.children inner :=
    fun m hm => hd.removed_of_empties hm htext hstart hstop
  have hnothing : e.start = e.stop → old = [] := by
    intro heq
    by_contra hne
    have hpos := byteLength_pos hne
    omega
  rw [Document.text_of_parse hparse] at htext
  refine ⟨before, old, after, htext, hstart, hstop, ?_, ?_, ?_, ?_, ?_, ?_⟩
  · rw [htext]
    exact Edit.apply_one hstart hstop
  · rcases hadmits.removes with heq | ⟨m, hm⟩
    · exact Or.inl (hnothing heq)
    · obtain ⟨inner, hinner, hfills⟩ := hremoved m hm
      exact Or.inr ⟨m, inner, hm, hinner, hfills.filler⟩
  · intro n hn hspecifier
    rcases hadmits.spares n hn (by simp [Node.isKept, hspecifier]) with hclear | ⟨hcomment, -⟩
    · exact hclear.symm
    · obtain ⟨start, own, rfl⟩ := Node.eq_of_isComment hcomment
      cases hspecifier
  · intro n hn hcomment
    rcases hadmits.spares n hn (by simp [Node.isKept, hcomment]) with hclear | ⟨-, hlist⟩
    · exact Or.inl hclear.symm
    · exact Or.inr hlist
  · intro hold m hm
    obtain ⟨inner, hinner, hfills⟩ := hremoved m hm
    rcases hold with rfl | ⟨blank, hblank, hall⟩
    · cases hinner
    · obtain rfl : inner = blank := by simpa [hinner] using hblank
      obtain ⟨hchildren, hcomma⟩ := hfills.areBlank_iff.1 hall
      exact ⟨hchildren, by simpa [hinner] using hcomma⟩
  · intro hlists
    rcases hadmits.removes with heq | ⟨m, hm⟩
    · exact Or.inl (hnothing heq)
    · obtain ⟨inner, hinner, hfills⟩ := hremoved m hm
      obtain ⟨hchildren, hcomma⟩ := hlists m hm
      refine Or.inr ⟨inner, hinner, hfills.areBlank_iff.2 ⟨hchildren, fun hmem => hcomma ?_⟩⟩
      simp [hinner, hmem]

theorem import_removes_list_specifier :
    ∃ d e n, Document.parse (some "a.tsx") "import \x7ba /* c */\x7d from \"m\"".toList = .ok d ∧
      d.ensureImport ⟨"m".toList, "t".toList, .named⟩ = .ok (some e) ∧
      n ∈ d.all ∧ n.isSpecifier = true ∧ e.Leaves n := by
  let e : Edit := ⟨9, 9, ", t".toList⟩
  have hfacts : (Document.parse (some "a.tsx")
      "import \x7ba /* c */\x7d from \"m\"".toList).toOption.map (fun d =>
        (d.ensureImport ⟨"m".toList, "t".toList, .named⟩, d.all.any Node.isSpecifier)) =
        some (.ok (some e), true) := by
    decide +kernel
  cases hparse : Document.parse (some "a.tsx")
      "import \x7ba /* c */\x7d from \"m\"".toList with
  | error f =>
      rw [hparse] at hfacts
      cases hfacts
  | ok d =>
      rw [hparse] at hfacts
      obtain ⟨himport, hany⟩ := Prod.mk.inj (Option.some.inj hfacts)
      obtain ⟨n, hn, hspecifier⟩ := List.any_eq_true.1 hany
      obtain ⟨before, old, after, -, -, -, -, -, hspecifiers, -⟩ :=
        import_removes_list hparse himport
      exact ⟨d, e, n, rfl, himport, hn, hspecifier, hspecifiers n hn hspecifier⟩

/-- A comment in a list without specifiers is lost. -/
theorem import_removes_comment :
    ∃ d e n, Document.parse (some "a.tsx") "import \x7b/* c */\x7d from \"m\"".toList = .ok d ∧
      d.ensureImport ⟨"m".toList, "t".toList, .named⟩ = .ok (some e) ∧
      n ∈ d.all ∧ n.isComment = true ∧ ¬e.Leaves n ∧
      Edit.apply "import \x7b/* c */\x7d from \"m\"".toList [e] =
        .ok "import \x7bt\x7d from \"m\"".toList := by
  let e : Edit := ⟨7, 16, "\x7bt\x7d".toList⟩
  have hfacts : (Document.parse (some "a.tsx")
      "import \x7b/* c */\x7d from \"m\"".toList).toOption.map (fun d =>
        (d.ensureImport ⟨"m".toList, "t".toList, .named⟩,
          d.all.any fun n => n.isComment && n.start == 8 && n.stop == 15)) =
        some (.ok (some e), true) := by
    decide +kernel
  cases hparse : Document.parse (some "a.tsx")
      "import \x7b/* c */\x7d from \"m\"".toList with
  | error f =>
      rw [hparse] at hfacts
      cases hfacts
  | ok d =>
      rw [hparse] at hfacts
      obtain ⟨himport, hany⟩ := Prod.mk.inj (Option.some.inj hfacts)
      obtain ⟨n, hn, hplace⟩ := List.any_eq_true.1 hany
      simp only [Bool.and_eq_true, beq_iff_eq] at hplace
      obtain ⟨⟨hcomment, hstart⟩, hstop⟩ := hplace
      refine ⟨d, e, n, rfl, himport, hn, hcomment, ?_, ?_⟩
      · simp only [Edit.Leaves, hstart, hstop]
        decide
      · decide +kernel

end Phrasebook
