import Phrasebook.Proofs.Reapply

/-!
The name that a target imports. A function path is written plainly once its parts are trimmed and
the empty ones are gone, and writing it plainly again changes nothing. The import binds the first
part of the path as it was given, which is the first part of the plain path, unless nothing stands
in front of the first dot: then no import is asked for.
-/

namespace Phrasebook

open Text

namespace Call

variable {name f part : List Char}

theorem ne_nil_of_isIdentifier (h : isIdentifier part = true) : part ≠ [] := by
  rintro rfl
  cases h

theorem dot_not_mem (h : isIdentifier part = true) : '.' ∉ part := by
  intro hdot
  rcases mem_of_isIdentifier h hdot with hletter | hline | hdollar
  · exact absurd hletter (by decide)
  · exact absurd hline (by decide)
  · exact absurd hdollar (by decide)

theorem isSpace_of_isIdentifier (h : isIdentifier part = true) {c : Char} (hc : c ∈ part) :
    isSpace c = false := by
  rcases mem_of_isIdentifier h hc with hletter | rfl | rfl
  · exact (isPlain_of_isAlphanum hletter).1
  · decide
  · decide

/-- An identifier has nothing around it that could be trimmed. -/
theorem strip_of_isIdentifier (h : isIdentifier part = true) : strip part = part :=
  (trim_eq_self_iff isSpace).2
    ⟨fun _ hc => isSpace_of_isIdentifier h (List.mem_of_mem_head? hc),
      fun _ hc => isSpace_of_isIdentifier h (List.mem_of_mem_getLast? hc)⟩

/-- The parts of the plain path are the trimmed parts of the path that are not empty. -/
theorem splitAt_of_callee (h : callee name = .ok f) :
    Path.splitAt '.' f = segments name ∧ ∀ part ∈ segments name, isIdentifier part = true := by
  unfold callee at h
  simp only at h
  split at h
  · cases h
  · next hsome =>
    split at h
    · cases h
    · next hnone =>
      obtain rfl := Except.ok.inj h
      have hidentifier : ∀ part ∈ segments name, isIdentifier part = true := fun part hpart => by
        simpa using List.find?_eq_none.1 hnone part hpart
      refine ⟨?_, hidentifier⟩
      cases hsegments : segments name with
      | nil => simp [hsegments] at hsome
      | cons p ps =>
          rw [hsegments] at hidentifier
          exact Path.splitAt_intercalate fun q hq => dot_not_mem (hidentifier q hq)

/-- A plain path is its own plain form. -/
theorem callee_of_callee (h : callee name = .ok f) : callee f = .ok f := by
  obtain ⟨hsplit, hidentifier⟩ := splitAt_of_callee h
  have hsegments : segments f = segments name := by
    rw [segments, hsplit, List.map_congr_left fun p hp => strip_of_isIdentifier (hidentifier p hp),
      List.map_id', List.filter_eq_self]
    intro p hp
    simpa using ne_nil_of_isIdentifier (hidentifier p hp)
  unfold callee at h ⊢
  rw [hsegments]
  exact h

/-- A first part that is not blank is the first part of the plain path. -/
theorem headD_splitAt_of_callee (h : callee name = .ok f)
    (hfirst : strip ((Path.splitAt '.' name).headD []) ≠ []) :
    (Path.splitAt '.' f).headD [] = strip ((Path.splitAt '.' name).headD []) := by
  rw [(splitAt_of_callee h).1, segments]
  cases hsplit : Path.splitAt '.' name with
  | nil => exact absurd hsplit (Path.splitAt_ne_nil name)
  | cons p ps =>
      rw [hsplit, List.headD_cons] at hfirst
      rw [List.map_cons, List.filter_cons_of_pos (by simpa using hfirst)]
      rfl

end Call

theorem isBlankText_eq_false {text : List Char} (h : isBlankText text = false) :
    (strip text).isEmpty = false := by
  rw [List.isEmpty_eq_false_iff]
  intro hstrip
  rw [Source.Document.isBlankText_of_strip hstrip] at h
  cases h

namespace Target

variable {t : Target} {f source : List Char} {kind : ImportKind}

/-- A target with a module to import from binds the first name of the call, in the kind that it
asks for, as long as its function path does not begin with an empty part. -/
theorem binding_symbol (hcallee : Call.callee t.functionName = .ok f)
    (hsource : t.importSource = some source) (hfilled : isBlankText source = false)
    (hkind : ImportKind.ofString? (String.ofList t.importKind) = some kind)
    (hskip : t.skipImport = false) :
    (t.binding = .ok (if isBlankText ((Path.splitAt '.' t.functionName).headD []) then none
      else some ⟨strip source, (Path.splitAt '.' f).headD [], kind⟩)) ∧
    Call.callee f = .ok f ∧ ∀ part ∈ Path.splitAt '.' f, Call.isIdentifier part = true := by
  have hparts := Call.splitAt_of_callee hcallee
  refine ⟨?_, Call.callee_of_callee hcallee, fun part hpart => hparts.2 part (hparts.1 ▸ hpart)⟩
  unfold binding
  simp only [hsource, hskip, hkind, Option.getD_some, isBlankText_eq_false hfilled, Bool.false_or]
  cases hblank : isBlankText ((Path.splitAt '.' t.functionName).headD []) with
  | true =>
      have hempty : strip ((Path.splitAt '.' t.functionName).headD []) = [] :=
        trim_eq_nil isSpace (List.all_eq_true.1 hblank)
      rw [hempty]
      rfl
  | false =>
      have hfirst := isBlankText_eq_false hblank
      rw [hfirst, Call.headD_splitAt_of_callee hcallee (List.isEmpty_eq_false_iff.1 hfirst)]
      rfl

/-- Blanks around the parts, empty parts behind the first one and a blank end of the module are all
cleared away. -/
theorem binding_symbol_spaced :
    let t : Target := ⟨"a.tsx".toList, "Save".toList, 1, 0, "k".toList, " i18n..t ".toList,
      some "m ".toList, "default".toList, false⟩
    Call.callee t.functionName = .ok "i18n.t".toList ∧
      t.binding = .ok (some ⟨"m".toList, "i18n".toList, .default⟩) := by
  intro t
  have hcallee : Call.callee t.functionName = .ok "i18n.t".toList := by decide +kernel
  refine ⟨hcallee, ?_⟩
  have hbinding := (@binding_symbol t "i18n.t".toList "m ".toList .default hcallee rfl
    (by decide +kernel) (by decide +kernel) rfl).1
  rw [hbinding]
  decide +kernel

/-- A path that begins with a dot is called by its next part, and nothing is imported for it. -/
theorem binding_of_leading_dot :
    let t : Target := ⟨"a.tsx".toList, "Save".toList, 1, 0, "k".toList, ".t".toList,
      some "m".toList, "named".toList, false⟩
    Call.callee t.functionName = .ok "t".toList ∧ t.binding = .ok none := by
  decide +kernel

end Target

end Phrasebook
