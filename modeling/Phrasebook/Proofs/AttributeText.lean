import Phrasebook.Proofs.ElementText

/-!
The values of attributes. The lexer makes such a token only of what stands in quotes after an
equals sign in a tag, and after it nothing but the frames counts. So a value can be taken out of a
text and something else put in, and the tokens before and after stay what they are.
-/

namespace Phrasebook.Source

namespace Control

structure InTag (s : Control) : Prop where
  reading_eq : s.reading = .nothing
  frames_eq : ∃ frames, s.frames = .tag :: frames ∨ s.frames = .closingTag :: frames

theorem InTag.step_eq {s : Control} (h : s.InTag) (markup : Bool) (c : Char) :
    s.step markup c = s.beginTag c := by
  obtain ⟨frames, hf | hf⟩ := h.frames_eq
  · rw [step, h.reading_eq]
    show s.begin markup c = _
    rw [begin, hf]
  · rw [step, h.reading_eq]
    show s.begin markup c = _
    rw [begin, hf]

/-- What a character of a value may do: begin one, or a string of code; go on with it; end it. -/
inductive ValueStep (s : Control) (c : Char) : Emission → Prop
  | opens (h : s.InTag) (hlast : s.lastIsSign '=' = true) :
      ValueStep s c (s.keep (.attribute c [c] none))
  | code : ValueStep s c ((s.prepare c).keep (.quoted c [c] .plain))
  | goesOn {quote : Char} {done : List Char} {reference : Option (List Char)}
      (h : s.reading = .attribute quote done reference) (hlast : s.lastIsSign '=' = true)
      (next : Option (List Char)) : ValueStep s c (s.keep (.attribute quote (c :: done) next))
  | breaks (done : List Char) (sound : Nat) : ValueStep s c (s.keep (.broken done sound))
  | ends {quote : Char} {done : List Char} {reference : Option (List Char)}
      (h : s.reading = .attribute quote done reference) (hlast : s.lastIsSign '=' = true) :
      ValueStep s c ([⟨.attribute, s.gap.reverse, (c :: done).reverse⟩], resting s.frames)

theorem valueStep_begin (markup : Bool) {s : Control} {c : Char} (hr : s.reading = .nothing)
    (h : s.opensValue c = true) : ValueStep s c (s.begin markup c) := by
  obtain ⟨hquote, hlast⟩ := Bool.and_eq_true_iff.1 h
  have hblank : Lexeme.isBlank c = false := by
    rcases Bool.or_eq_true_iff.1 hquote with hc | hc <;> rw [beq_iff_eq.1 hc] <;> rfl
  have htag : s.beginTag c = s.keep (.attribute c [c] none) := by
    rw [beginTag, hblank, hquote]
    rfl
  unfold begin
  split
  · next frames hf =>
    rw [htag]
    exact .opens ⟨hr, frames, .inl hf⟩ hlast
  · next frames hf =>
    rw [htag]
    exact .opens ⟨hr, frames, .inr hf⟩ hlast
  · rw [beginCode, hblank]
    show ValueStep s c ((s.prepare c).beginToken markup c)
    rw [beginToken, hquote]
    exact .code

theorem valueStep_stepAttribute {s : Control} {c quote : Char} {done : List Char}
    {reference : Option (List Char)} (hr : s.reading = .attribute quote done reference)
    (hlast : s.lastIsSign '=' = true) :
    ValueStep s c (s.stepAttribute quote done reference c) := by
  unfold stepAttribute
  split
  · split
    · exact .ends hr hlast
    · exact .goesOn hr hlast _
  · exact .goesOn hr hlast _
  · split
    · exact .goesOn hr hlast _
    · split
      · exact .goesOn hr hlast _
      · exact .breaks _ _

theorem valueStep {markup : Bool} {s : Control} {c : Char} (h : s.takesValue c = true) :
    ValueStep s c (s.step markup c) := by
  unfold takesValue at h
  split at h
  · next hr =>
    rw [step, hr]
    exact valueStep_begin markup hr h
  · next hr =>
    rw [step, hr]
    exact valueStep_stepAttribute hr h
  · cases h

/-- No value of an attribute is among the tokens, and none is under way. -/
structure Valueless (e : Emission) : Prop where
  kind_ne : ∀ t ∈ e.1, t.kind ≠ .attribute
  last_eq : ∀ {quote : Char} {done : List Char} {reference : Option (List Char)},
    e.2.reading = .attribute quote done reference → e.2.lastIsSign '=' = false

theorem valueless_of_quiet {e : Emission} (h : e.Quiet false) : Valueless e := by
  refine ⟨fun t ht => Token.kind_ne_attribute_of_isCode (h.code t ht), ?_⟩
  intro quote done reference hr
  rcases h.settled with hidle | ⟨frames, hresting⟩
  · rw [isIdle, hr] at hidle
    simpa using hidle
  · rw [hresting] at hr
    unfold resting at hr
    split at hr <;> cases hr

/-- Any other character makes no value and begins none. -/
theorem valueless_step {markup : Bool} {s : Control} {c : Char} (hs : s.Textual)
    (h : s.takesValue c = false) : Valueless (s.step markup c) := by
  by_cases hr : ∃ done, s.reading = .content done
  · obtain ⟨done, hd⟩ := hr
    obtain ⟨frames, rfl⟩ := hs done hd
    by_cases hc : endsText c = true
    · have hend := valueless_of_quiet (quiet_inText_end false markup frames c hc)
      rw [step_inText_end markup frames done c hc]
      refine ⟨fun t ht => ?_, hend.last_eq⟩
      rcases List.mem_append.1 ht with ht | ht
      · simp [kind_of_mem_textToken ht]
      · exact hend.kind_ne t ht
    · rw [step_inText markup frames done c (by simpa using hc)]
      exact ⟨by simp, by simp [inText]⟩
  · exact valueless_of_quiet
      (quiet_step markup s c (fun done hd => hr ⟨done, hd⟩) (.inr h))

theorem finish_kind_ne_attribute {s : Control} (hs : s.Textual) :
    ∀ t ∈ s.finish, t.kind ≠ .attribute := by
  intro t ht
  rcases List.mem_append.1 ht with hf | hstop
  · by_cases hr : ∃ done, s.reading = .content done
    · obtain ⟨done, hd⟩ := hr
      obtain ⟨frames, rfl⟩ := hs done hd
      rw [flush_inText] at hf
      simp [kind_of_mem_textToken hf]
    · exact Token.kind_ne_attribute_of_isCode
        (flush_isCode false s (fun done hd => hr ⟨done, hd⟩) t hf)
  · rw [List.mem_singleton.1 hstop]
    simp

/-- If a value is under way, it is the end of what has been read, and before it the state was in a
tag after an equals sign. -/
theorem run_eq_value {markup : Bool} {text : List Char} {ts : List Token} {s : Control}
    (h : start.run markup text = (ts, s)) {quote : Char} {done : List Char}
    {reference : Option (List Char)} (hr : s.reading = .attribute quote done reference)
    (hlast : s.lastIsSign '=' = true) :
    ∃ before t, text = before ++ done.reverse ∧ start.run markup before = (ts, t) ∧ t.InTag ∧
      s = { t with reading := .attribute quote done reference } := by
  induction text using List.reverseRecOn generalizing ts s quote done reference with
  | nil =>
    cases h
    cases hr
  | append_singleton r c ih =>
    have htextual := textual_run markup start r textual_start
    obtain ⟨us, u, hu⟩ : ∃ us u, start.run markup r = (us, u) := ⟨_, _, rfl⟩
    obtain ⟨new, hstep, rfl⟩ : ∃ new, u.step markup c = (new, s) ∧ us ++ new = ts := by
      rw [run_concat, hu] at h
      have hsnd : (u.step markup c).2 = s := congrArg Prod.snd h
      exact ⟨_, Prod.ext rfl hsnd, congrArg Prod.fst h⟩
    rw [hu] at htextual
    cases htakes : u.takesValue c with
    | false =>
      have hnot : Valueless (new, s) := hstep ▸ valueless_step htextual htakes
      have hfalse : s.lastIsSign '=' = false := hnot.last_eq hr
      rw [hlast] at hfalse
      cases hfalse
    | true =>
      have hvalue : ValueStep u c (new, s) := hstep ▸ valueStep htakes
      cases hvalue with
      | opens htag =>
        cases hr
        exact ⟨r, u, rfl, by simp [hu], htag, rfl⟩
      | code => cases hr
      | goesOn hread =>
        cases hr
        obtain ⟨before, t, hbefore, hrun, htag, rfl⟩ := ih hu hread hlast
        exact ⟨before, t, by simp [hbefore], by simp [hrun], htag, rfl⟩
      | breaks => cases hr
      | ends =>
        unfold resting at hr
        split at hr <;> cases hr

/-- A value found where the text `rest` is still to be read. -/
theorem tokensFrom_eq_value {markup : Bool} {before rest : List Char} {ts : List Token}
    {s : Control} (hs : start.run markup before = (ts, s)) {t : Token} {X Y : List Token}
    (ht : t.kind = .attribute) (h : s.tokensFrom markup rest = X ++ t :: Y) :
    ∃ P Q u, before ++ rest = P ++ t.text ++ Q ∧ start.run markup P = (ts ++ X, u) ∧ u.InTag ∧
      u.lastIsSign '=' = true ∧ u.gap.reverse = t.gap ∧
      Y = (resting u.frames).tokensFrom markup Q := by
  have hst : s.Textual := by
    have hrun := textual_run markup start before textual_start
    rwa [hs] at hrun
  induction rest generalizing before ts s X with
  | nil =>
    have hfinish : s.finish = X ++ t :: Y := h
    exact absurd ht (finish_kind_ne_attribute hst t (by simp [hfinish]))
  | cons c r ih =>
    rw [tokensFrom_cons] at h
    rcases append_eq_append_cons h with ⟨Z, rfl, hZ⟩ | ⟨Z, hX, rfl⟩
    · have hrun : start.run markup (before ++ [c]) =
          (ts ++ (s.step markup c).1, (s.step markup c).2) := by
        rw [run_concat, hs]
        rfl
      obtain ⟨P, Q, u, hsplit, hP, hrest⟩ := ih hrun hZ (textual_step markup s c hst)
      exact ⟨P, Q, u, by simpa using hsplit, by simpa using hP, hrest⟩
    · have hmem : t ∈ (s.step markup c).1 := by simp [hX]
      cases htakes : s.takesValue c with
      | false => exact absurd ht ((valueless_step hst htakes).kind_ne t hmem)
      | true =>
        obtain ⟨new, after, hstep⟩ : ∃ new after, s.step markup c = (new, after) := ⟨_, _, rfl⟩
        have hvalue : ValueStep s c (new, after) := hstep ▸ valueStep htakes
        rw [hstep] at hX hmem
        simp only [hstep]
        cases hvalue with
        | opens | code | goesOn | breaks => cases hmem
        | @ends quote done reference hread hlast =>
          obtain ⟨P, u, rfl, hP, htag, rfl⟩ := run_eq_value hs hread hlast
          obtain ⟨rfl, hcons⟩ : X = [] ∧ t :: Z = [_] := by
            simpa using List.append_eq_singleton_iff.1 hX.symm
          obtain ⟨rfl, rfl⟩ := List.cons.inj hcons
          exact ⟨P, r, u, by simp, by simpa using hP, htag, hlast, rfl, rfl⟩

end Control

open Control

/-- The value of an attribute among the tokens of a file: where it stands in the file, and the state
of the lexer before it. Of that only the frames count after it. -/
theorem tokens_eq_value {markup : Bool} {text : List Char} {t : Token} {X Y : List Token}
    (ht : t.kind = .attribute) (h : tokens markup text = X ++ t :: Y) :
    ∃ P Q u, text = P ++ t.text ++ Q ∧ start.run markup P = (X, u) ∧ u.InTag ∧
      u.lastIsSign '=' = true ∧ u.gap.reverse = t.gap ∧
      Y = (resting u.frames).tokensFrom markup Q := by
  have hstart : start.run markup [] = ([], start) := rfl
  obtain ⟨P, Q, u, hsplit, hrest⟩ := tokensFrom_eq_value hstart ht h
  exact ⟨P, Q, u, by simpa using hsplit, hrest⟩

end Phrasebook.Source
