import Mathlib.Data.List.Induction
import Phrasebook.Proofs.Lexer

/-!
Element text. The lexer makes a text token only of what it has read between the tags and braces of
an element, and there its state is known but for the frames around. So such a token can be taken
out of a text and something else put in, and the tokens before and after stay what they are.
-/

namespace Phrasebook.Source

/-- An item of two rows is in the first or in the second. -/
theorem append_eq_append_cons {α : Type} {a b X Y : List α} {x : α} (h : a ++ b = X ++ x :: Y) :
    (∃ Z, X = a ++ Z ∧ b = Z ++ x :: Y) ∨ ∃ Z, a = X ++ x :: Z ∧ Y = Z ++ b := by
  rcases List.append_eq_append_iff.1 h with ⟨Z, hX, hb⟩ | ⟨Z, ha, hY⟩
  · exact Or.inl ⟨Z, hX, hb⟩
  · cases Z with
    | nil => exact Or.inl ⟨[], by simpa using ha.symm, by simpa using hY.symm⟩
    | cons z Z =>
        obtain ⟨rfl, hb⟩ := List.cons.inj hY
        exact Or.inr ⟨Z, ha, hb⟩

/-- A token that stands for characters of a text: no part that is read on its own, no end, and
nothing opened without a character. -/
def Token.isProper (t : Token) : Bool :=
  match t.kind with
  | .nested _ _ | .stop | .border => false
  | .angle _ | .hole _ => !t.text.isEmpty
  | _ => true

/-- A token of a text that is no text of an element, and the value of an attribute only with
`values`. -/
def Token.isCode (values : Bool) (t : Token) : Bool :=
  t.isProper && t.kind != .text && (t.kind != .attribute || values)

namespace Token

variable (values : Bool) (gap text : List Char)

@[simp] theorem isCode_word : isCode values ⟨.word, gap, text⟩ = true := rfl

@[simp] theorem isCode_importWord : isCode values ⟨.importWord, gap, text⟩ = true := rfl

@[simp] theorem isCode_sign : isCode values ⟨.sign, gap, text⟩ = true := rfl

@[simp] theorem isCode_comment : isCode values ⟨.comment, gap, text⟩ = true := rfl

@[simp] theorem isCode_angle (value : Bool) (c : Char) :
    isCode values ⟨.angle value, gap, [c]⟩ = true := rfl

@[simp] theorem isCode_hole (value : Bool) (c : Char) :
    isCode values ⟨.hole value, gap, [c]⟩ = true := rfl

end Token

variable {values : Bool}

theorem Token.proper_of_isCode {t : Token} (h : t.isCode values = true) :
    t.isProper = true ∧ t.kind ≠ .text := by
  simp only [isCode, Bool.and_eq_true, bne_iff_ne] at h
  exact h.1

theorem Token.kind_ne_attribute_of_isCode {t : Token} (h : t.isCode false = true) :
    t.kind ≠ .attribute := by
  simp only [isCode, Bool.and_eq_true, bne_iff_ne, Bool.or_false] at h
  exact h.2

/-- No text of an element is under way, and the value of an attribute only with `values`. -/
def Control.isIdle (values : Bool) (s : Control) : Bool :=
  match s.reading with
  | .content _ => false
  | .attribute _ _ _ => values || !s.lastIsSign '='
  | _ => true

theorem Control.isIdle_of_nothing {s : Control} (h : s.reading = .nothing) :
    s.isIdle values = true := by
  rw [isIdle, h]

theorem Control.reading_ne_content_of_isIdle {s : Control} (h : s.isIdle values = true)
    (done : List Char) : s.reading ≠ .content done := by
  intro hr
  rw [isIdle, hr] at h
  cases h

theorem Control.isIdle_attribute {s : Control} (h : values = true ∨ s.lastIsSign '=' = false)
    {quote : Char} {done : List Char} {reference : Option (List Char)} :
    ({ s with reading := .attribute quote done reference } : Control).isIdle values = true := by
  show (values || !s.lastIsSign '=') = true
  simpa using h

/-- No text of an element is among the tokens, and none is under way unless it is at its
beginning; the same holds of the values of attributes without `values`. -/
structure Emission.Quiet (values : Bool) (e : Emission) : Prop where
  code : ∀ t ∈ e.1, t.isCode values = true
  settled : e.2.isIdle values = true ∨ ∃ frames, e.2 = .resting frames

theorem Emission.Quiet.andThen {e : Emission} {f : Control → Emission}
    (he : ∀ t ∈ e.1, t.isCode values = true) (hf : (f e.2).Quiet values) :
    (e.andThen f).Quiet values := by
  refine ⟨?_, hf.settled⟩
  intro t ht
  rcases List.mem_append.1 ht with h | h
  · exact he t h
  · exact hf.code t h

namespace Control

theorem quiet_keep (s : Control) (r : Reading)
    (h : ({ s with reading := r } : Control).isIdle values = true) : (s.keep r).Quiet values :=
  ⟨by simp [keep], Or.inl h⟩

theorem quiet_resting (t : Token) (h : t.isCode values = true) (frames : List Frame) :
    Emission.Quiet values ([t], resting frames) :=
  ⟨by simpa using h, Or.inr ⟨frames, rfl⟩⟩

theorem quiet_emit (s : Control) (kind : TokenKind) (text : List Char)
    (h : Token.isCode values ⟨kind, s.gap.reverse, text⟩ = true) (operand : Bool) :
    (s.emit kind text operand).Quiet values :=
  ⟨by simpa using h, Or.inl rfl⟩

/-- A token other than text after which the state is changed, but not to one of text. -/
theorem quiet_emit_update (s : Control) (kind : TokenKind) (text : List Char)
    (h : Token.isCode values ⟨kind, s.gap.reverse, text⟩ = true) (operand : Bool)
    (f : Control → Control) (hf : (f (s.emit kind text operand).2).isIdle values = true) :
    ((s.emit kind text operand).update f).Quiet values :=
  ⟨by simpa [Emission.update] using h, Or.inl hf⟩

theorem quiet_closeFrame (s : Control) (c : Char) (frames : List Frame) (operand : Bool) :
    (s.closeFrame c frames operand).Quiet values :=
  quiet_emit_update _ _ _ rfl _ _ rfl

theorem quiet_openFrame (s : Control) (c : Char) (frame : Frame) :
    (s.openFrame c frame).Quiet values :=
  quiet_emit_update _ _ _ rfl _ _ rfl

theorem quiet_emitEnd (s : Control) (c : Char) : (s.emitEnd c).Quiet values :=
  ⟨by simp [emitEnd], Or.inl rfl⟩

theorem quiet_closeBrace (s : Control) : s.closeBrace.Quiet values := by
  unfold closeBrace
  split
  · split
    · exact quiet_emitEnd s _
    · exact quiet_emit_update _ _ _ rfl _ _ rfl
  · exact ⟨by simp [Token.isCode, Token.isProper], Or.inl rfl⟩
  · exact quiet_emit_update _ _ _ rfl _ _ rfl
  · exact quiet_resting _ rfl _
  · exact quiet_emit _ _ _ rfl _

theorem quiet_closeTypeArguments (s : Control) (frames : List Frame) :
    (s.closeTypeArguments frames).Quiet values := by
  unfold closeTypeArguments
  split
  · exact quiet_resting _ rfl _
  · exact quiet_closeFrame _ _ _ _

theorem quiet_sign (s : Control) (c : Char) : (s.sign c).Quiet values := by
  unfold sign
  split
  case h_8 => exact quiet_closeBrace s
  case h_10 =>
    split
    · exact quiet_emit _ _ _ rfl _
    · exact quiet_closeTypeArguments _ _
  case h_11 => exact quiet_emitEnd s _
  all_goals
    first
    | exact quiet_openFrame _ _ _
    | exact quiet_emit _ _ _ rfl _
    | exact quiet_closeFrame _ _ _ _

theorem quiet_openHole (s : Control) : s.openHole.Quiet values :=
  ⟨by simp [openHole], Or.inl rfl⟩

theorem quiet_closeTag (s : Control) : s.closeTag.Quiet values := by
  unfold closeTag
  split
  · split
    · exact quiet_resting _ rfl _
    · exact quiet_resting _ rfl _
  · exact quiet_resting _ rfl _
  · exact quiet_emit _ _ _ rfl _

theorem quiet_space (s : Control) (c : Char) (h : s.reading = .nothing) :
    (s.space c).Quiet values :=
  ⟨by simp [space], Or.inl (isIdle_of_nothing h)⟩

def opensValue (s : Control) (c : Char) : Bool := (c == '"' || c == '\'') && s.lastIsSign '='

theorem quiet_beginTag (s : Control) (c : Char) (h : s.reading = .nothing)
    (hc : values = true ∨ s.opensValue c = false) : (s.beginTag c).Quiet values := by
  unfold beginTag
  split
  · exact quiet_space s c h
  · split
    · next hquote =>
      rw [opensValue, hquote, Bool.true_and] at hc
      exact quiet_keep _ _ (isIdle_attribute hc)
    · repeat' split
      · exact quiet_openHole s
      · exact quiet_keep _ _ rfl
      · exact quiet_closeTag s
      · exact quiet_resting _ rfl _
      · exact quiet_emit_update _ _ _ rfl _ _ rfl
      · exact quiet_keep _ _ rfl
      · exact quiet_emit _ _ _ rfl _

theorem quiet_beginToken (markup : Bool) (s : Control) (c : Char) :
    (s.beginToken markup c).Quiet values := by
  unfold beginToken
  repeat' split
  case isFalse.isTrue => exact quiet_emit_update _ _ _ rfl _ _ rfl
  all_goals
    first
    | exact quiet_keep _ _ rfl
    | exact quiet_sign s c

theorem quiet_beginCode (markup : Bool) (s : Control) (c : Char) (h : s.reading = .nothing) :
    (s.beginCode markup c).Quiet values := by
  unfold beginCode
  split
  · exact quiet_space s c h
  · exact quiet_beginToken markup _ c

theorem quiet_begin (markup : Bool) (s : Control) (c : Char) (h : s.reading = .nothing)
    (hc : values = true ∨ s.opensValue c = false) : (s.begin markup c).Quiet values := by
  unfold begin
  split
  · exact quiet_beginTag s c h hc
  · exact quiet_beginTag s c h hc
  · exact quiet_beginCode markup s c h

theorem opensValue_of_recent {s : Control} (c : Char) (h : s.recent = []) :
    values = true ∨ s.opensValue c = false := by
  rw [opensValue, lastIsSign, h]
  exact .inr (Bool.and_false _)

theorem opensValue_of_isLineEnd (s : Control) {c : Char} (h : Lexeme.isLineEnd c = true) :
    s.opensValue c = false := by
  have hdouble : c ≠ '"' := by
    rintro rfl
    cases h
  have hsingle : c ≠ '\'' := by
    rintro rfl
    cases h
  simp [opensValue, hdouble, hsingle]

/-- After a token other than an equals sign no value begins. -/
theorem opensValue_emit (s : Control) {kind : TokenKind} {text : List Char}
    (h : Token.isSign ⟨kind, [], text⟩ '=' = false) (operand : Bool) (c : Char) :
    values = true ∨ (s.emit kind text operand).2.opensValue c = false := by
  have hlast : (s.emit kind text operand).2.lastIsSign '=' = false := by
    simp only [emit, settle, lastIsSign]
    repeat' split
    · rfl
    · rfl
    · rfl
    · simpa using h
  rw [opensValue, hlast, Bool.and_false]
  exact .inr rfl

theorem quiet_stepContentAngle (s : Control) (c : Char) : (s.stepContentAngle c).Quiet values := by
  unfold stepContentAngle
  split
  · exact quiet_resting _ rfl _
  · exact .andThen (by simp [openTag]) (quiet_beginTag _ c rfl (opensValue_of_recent c rfl))

theorem quiet_stepTagWord (s : Control) (done : List Char) (hyphen : Bool) (c : Char) :
    (s.stepTagWord done hyphen c).Quiet values := by
  unfold stepTagWord
  repeat' split
  · exact quiet_keep _ _ rfl
  · exact quiet_keep _ _ rfl
  · exact .andThen (by simp) (quiet_beginTag _ c rfl (opensValue_emit s rfl _ c))

theorem quiet_stepAttribute (s : Control) (quote : Char) (done : List Char)
    (reference : Option (List Char)) (c : Char) (h : values = true ∨ s.lastIsSign '=' = false) :
    (s.stepAttribute quote done reference c).Quiet values := by
  unfold stepAttribute
  repeat' split
  case h_1.isTrue.isTrue hsign =>
    obtain rfl | hlast := h
    · exact quiet_resting _ rfl _
    · rw [hlast] at hsign
      cases hsign
  case h_1.isTrue.isFalse => exact quiet_resting _ rfl _
  all_goals
    first
    | exact quiet_keep _ _ (isIdle_attribute h)
    | exact quiet_keep _ _ rfl

theorem quiet_emitWord_begin (markup : Bool) (s : Control) (word : List Char) (c : Char) :
    ((s.emitWord word).andThen (·.begin markup c)).Quiet values :=
  .andThen (by simp) (quiet_begin markup _ c rfl (opensValue_emit s rfl _ c))

theorem quiet_emit_begin (markup : Bool) (s : Control) (kind : TokenKind) (text : List Char)
    (h : Token.isCode values ⟨kind, s.gap.reverse, text⟩ = true)
    (hsign : Token.isSign ⟨kind, [], text⟩ '=' = false) (operand : Bool) (c : Char) :
    ((s.emit kind text operand).andThen (·.begin markup c)).Quiet values :=
  .andThen (by simpa using h) (quiet_begin markup _ c rfl (opensValue_emit s hsign _ c))

theorem quiet_stepImporting (markup : Bool) (s : Control) (after : List Char) (c : Char) :
    (s.stepImporting markup after c).Quiet values := by
  unfold stepImporting
  split
  · exact quiet_keep _ _ rfl
  · split
    · exact .andThen (by simp) (quiet_begin markup _ c rfl (opensValue_emit s rfl _ c))
    · exact .andThen (by simp) (quiet_begin markup _ c rfl (opensValue_of_recent c rfl))

theorem quiet_stepWord (markup : Bool) (s : Control) (done : List Char) (c : Char) :
    (s.stepWord markup done c).Quiet values := by
  unfold stepWord
  repeat' split
  · exact quiet_keep _ _ rfl
  · exact quiet_keep _ _ rfl
  · exact quiet_stepImporting markup s [] c
  · exact quiet_emitWord_begin markup s _ c

theorem quiet_stepWordEscape (s : Control) (done : List Char) (e : Escaping) (c : Char) :
    (s.stepWordEscape done e c).Quiet values := by
  unfold stepWordEscape
  split <;> exact quiet_keep _ _ rfl

theorem quiet_stepNumber (markup : Bool) (s : Control) (done : List Char) (c : Char) :
    (s.stepNumber markup done c).Quiet values := by
  unfold stepNumber
  simp only []
  repeat' split
  · exact quiet_keep _ _ rfl
  · exact quiet_emit_begin markup s _ _ rfl rfl _ c
  · exact quiet_keep _ _ rfl

theorem quiet_stepRegex (s : Control) (done : List Char) (inClass escaped : Bool) (c : Char) :
    (s.stepRegex done inClass escaped c).Quiet values := by
  unfold stepRegex
  repeat' split
  all_goals exact quiet_keep _ _ rfl

theorem quiet_stepSlash (markup : Bool) (s : Control) (c : Char) :
    (s.stepSlash markup c).Quiet values := by
  unfold stepSlash
  repeat' split
  · exact quiet_keep _ _ rfl
  · exact quiet_keep _ _ rfl
  · exact quiet_stepRegex s _ _ _ c
  · rw [sign_slash]
    exact quiet_emit_begin markup s _ _ rfl rfl _ c

theorem quiet_stepQuoted (s : Control) (quote : Char) (done : List Char) (e : Escaping)
    (c : Char) : (s.stepQuoted quote done e c).Quiet values := by
  unfold stepQuoted
  repeat' split
  all_goals
    first
    | exact quiet_keep _ _ rfl
    | exact quiet_emit _ _ _ rfl _

theorem emitText_isCode (s : Control) (done : List Char) :
    ∀ t ∈ (s.emitText .chunk done).1, t.isCode values = true := by
  unfold emitText
  split
  · simp
  · simp [Token.isCode, Token.isProper]

theorem quiet_stepChunk (s : Control) (done : List Char) (e : Escaping) (c : Char) :
    (s.stepChunk done e c).Quiet values := by
  unfold stepChunk
  simp only []
  repeat' split
  all_goals
    first
    | exact quiet_keep _ _ rfl
    | exact .andThen (emitText_isCode s _)
        (quiet_emit_update _ _ _ rfl _ _ rfl)

theorem emitParameter_isCode (s : Control) (before name : List Char) :
    ∀ t ∈ (s.emitParameter before name).1, t.isCode values = true := by
  simp [emitParameter, Emission.andThen]

theorem emitTagName_isCode (s : Control) (before name : List Char) :
    ∀ t ∈ (s.emitTagName before name).1, t.isCode values = true := by
  simp [emitTagName, Emission.andThen, openTag]

theorem quiet_stepAngle (s : Control) (before : List Char) (c : Char) :
    (s.stepAngle before c).Quiet values := by
  unfold stepAngle
  repeat' split
  · exact quiet_keep _ _ rfl
  · exact quiet_keep _ _ rfl
  · exact .andThen (by simp [openTag])
      (quiet_beginTag _ c rfl (opensValue_of_recent c rfl))

theorem quiet_stepAngleName (markup : Bool) (s : Control) (before name : List Char) (c : Char) :
    (s.stepAngleName markup before name c).Quiet values := by
  unfold stepAngleName
  repeat' split
  · exact .andThen (emitParameter_isCode s before name)
      (quiet_begin markup _ c rfl (opensValue_emit _ rfl _ c))
  · exact quiet_keep _ _ rfl
  · exact quiet_keep _ _ rfl
  · exact .andThen (by simp [openTag]) (quiet_stepTagWord _ _ _ c)

theorem quiet_stepAngleSpace (markup : Bool) (s : Control) (before name after : List Char)
    (c : Char) : (s.stepAngleSpace markup before name after c).Quiet values := by
  unfold stepAngleSpace
  repeat' split
  · exact .andThen (emitParameter_isCode s before name)
      (quiet_begin markup _ c rfl (opensValue_emit _ rfl _ c))
  · exact quiet_keep _ _ rfl
  · exact quiet_keep _ _ rfl
  · exact .andThen (emitTagName_isCode s before name)
      (quiet_beginTag _ c rfl (opensValue_emit _ rfl _ c))

theorem quiet_stepAngleWord (markup : Bool) (s : Control) (before name after second : List Char)
    (c : Char) : (s.stepAngleWord markup before name after second c).Quiet values := by
  unfold stepAngleWord
  repeat' split
  · exact quiet_keep _ _ rfl
  · exact .andThen (emitParameter_isCode s before name) (quiet_emitWord_begin markup _ _ c)
  · exact .andThen (emitTagName_isCode s before name) (quiet_stepTagWord _ _ _ c)

/-- Whether a character may begin the value of an attribute or go on with it. -/
def takesValue (s : Control) (c : Char) : Bool :=
  match s.reading with
  | .nothing => s.opensValue c
  | .attribute _ _ _ => s.lastIsSign '='
  | _ => false

/-- Outside element text a step makes none, and outside the values of attributes it makes none of
those. -/
theorem quiet_step (markup : Bool) (s : Control) (c : Char)
    (h : ∀ done, s.reading ≠ .content done) (hvalue : values = true ∨ s.takesValue c = false) :
    (s.step markup c).Quiet values := by
  unfold takesValue at hvalue
  unfold step
  split
  case h_1 hr => exact quiet_begin markup s c hr (by simpa [hr] using hvalue)
  case h_2 => exact quiet_stepWord markup s _ c
  case h_3 => exact quiet_stepWordEscape s _ _ c
  case h_4 => exact quiet_stepImporting markup s _ c
  case h_5 =>
    split
    · exact quiet_keep _ _ rfl
    · rw [sign_dot]
      exact quiet_emit_begin markup s _ _ rfl rfl _ c
  case h_6 => exact quiet_stepNumber markup s _ c
  case h_7 =>
    repeat' split
    all_goals exact quiet_keep _ _ rfl
  case h_8 =>
    split
    · exact quiet_keep _ _ rfl
    · exact quiet_emit_begin markup s _ _ rfl rfl _ c
  case h_9 =>
    split
    · exact quiet_emit_begin markup s _ _ rfl rfl _ c
    · exact quiet_keep _ _ rfl
  case h_10 => exact quiet_stepSlash markup s c
  case h_11 =>
    split
    · next hend =>
      exact .andThen (by simp [emitComment])
        (quiet_begin markup _ c rfl (.inr (opensValue_of_isLineEnd _ hend)))
    · exact quiet_keep _ _ rfl
  case h_12 =>
    split
    · exact ⟨by simp [emitComment], Or.inl rfl⟩
    · exact quiet_keep _ _ rfl
  case h_13 => exact quiet_stepRegex s _ _ _ c
  case h_14 =>
    split
    · exact quiet_keep _ _ rfl
    · exact quiet_emit_begin markup s _ _ rfl rfl _ c
  case h_15 => exact quiet_stepQuoted s _ _ _ c
  case h_16 => exact quiet_stepChunk s _ _ c
  case h_17 => exact quiet_stepAngle s _ c
  case h_18 => exact quiet_stepAngleName markup s _ _ c
  case h_19 => exact quiet_stepAngleSpace markup s _ _ _ c
  case h_20 => exact quiet_stepAngleWord markup s _ _ _ _ c
  case h_21 => exact quiet_stepTagWord s _ _ c
  case h_22 hr => exact quiet_stepAttribute s _ _ _ c (by simpa [hr] using hvalue)
  case h_23 hr => exact absurd hr (h _)
  case h_24 => exact quiet_stepContentAngle s c
  case h_25 => exact quiet_keep _ _ rfl

/-! ### Inside the text of an element -/

def inText (frames : List Frame) (done : List Char) : Control :=
  { resting (.content :: frames) with reading := .content done }

def textToken (done : List Char) : List Token :=
  if done.isEmpty then [] else [⟨.text, [], done.reverse⟩]

theorem kind_of_mem_textToken {done : List Char} {t : Token} (h : t ∈ textToken done) :
    t.kind = .text := by
  unfold textToken at h
  split at h
  · cases h
  · rw [List.mem_singleton.1 h]

theorem flush_inText (frames : List Frame) (done : List Char) :
    (inText frames done).flush = (textToken done, inText frames done) := by
  have hflush : (inText frames done).flush = (inText frames done).emitText .text done := rfl
  rw [hflush, emitText, textToken]
  split <;> rfl

def endsText (c : Char) : Bool := c == '<' || c == '\x7b' || Lexeme.breaksText c

theorem step_inText (markup : Bool) (frames : List Frame) (done : List Char) (c : Char)
    (h : endsText c = false) :
    (inText frames done).step markup c = ([], inText frames (c :: done)) := by
  simp only [endsText, Bool.or_eq_false_iff] at h
  simp [step, inText, stepContent, h.1.1, h.1.2, h.2, keep]

/-- Where a text ends, the state no longer knows what the text was. -/
theorem step_inText_end (markup : Bool) (frames : List Frame) (done : List Char) (c : Char)
    (h : endsText c = true) :
    (inText frames done).step markup c =
      (textToken done ++ ((inText frames []).step markup c).1,
        ((inText frames []).step markup c).2) := by
  have he : (inText frames done).emitText .text done =
      (textToken done, inText frames done) := by
    unfold emitText textToken
    split <;> rfl
  have h0 : (inText frames []).emitText .text [] = ([], inText frames []) := rfl
  have hd : (inText frames done).step markup c = (inText frames done).stepContent done c := rfl
  have hn : (inText frames []).step markup c = (inText frames []).stepContent [] c := rfl
  rw [hd, hn]
  unfold stepContent
  rw [he, h0]
  -- what follows the text takes the frames from the state and overwrites its reading
  split
  · rfl
  · split
    · rfl
    · split
      · rfl
      · simp_all [endsText]

theorem run_inText (markup : Bool) (frames : List Frame) (done text : List Char)
    (h : ∀ c ∈ text, endsText c = false) :
    (inText frames done).run markup text = ([], inText frames (text.reverse ++ done)) := by
  induction text generalizing done with
  | nil => rfl
  | cons c r ih =>
      rw [run, step_inText markup frames done c (h c (by simp)), Emission.andThen,
        ih (c :: done) fun d hd => h d (by simp [hd])]
      simp

def tokensFrom (markup : Bool) (s : Control) (text : List Char) : List Token :=
  (s.run markup text).1 ++ (s.run markup text).2.finish

theorem tokensFrom_append (markup : Bool) (s : Control) (a b : List Char) :
    s.tokensFrom markup (a ++ b) =
      (s.run markup a).1 ++ (s.run markup a).2.tokensFrom markup b := by
  simp [tokensFrom, run_append, Emission.andThen]

theorem tokensFrom_cons (markup : Bool) (s : Control) (c : Char) (r : List Char) :
    s.tokensFrom markup (c :: r) =
      (s.step markup c).1 ++ (s.step markup c).2.tokensFrom markup r := by
  simp [tokensFrom, run, Emission.andThen]

def TextEnds (rest : List Char) : Prop := ∀ c ∈ rest.head?, endsText c = true

/-- What comes after the text of an element does not depend on it. -/
theorem tokensFrom_inText (markup : Bool) (frames : List Frame) (done rest : List Char)
    (h : TextEnds rest) :
    (inText frames done).tokensFrom markup rest =
      textToken done ++ (inText frames []).tokensFrom markup rest := by
  cases rest with
  | nil =>
      simp only [tokensFrom, run, finish, flush_inText]
      simp [inText, textToken]
  | cons c r =>
      have hc : endsText c = true := h c (by simp)
      rw [tokensFrom_cons, tokensFrom_cons, step_inText_end markup frames done c hc]
      simp

/-! ### Where text tokens come from -/

/-- If the state is in the text of an element, it is known but for the frames around. -/
def Textual (s : Control) : Prop :=
  ∀ done, s.reading = .content done → ∃ frames, s = inText frames done

theorem textual_resting (frames : List Frame) : (resting frames).Textual := by
  intro done h
  unfold resting at h
  split at h
  · next fs =>
    cases h
    exact ⟨fs, rfl⟩
  · cases h

theorem textual_of_quiet {e : Emission} (h : e.Quiet values) : e.2.Textual := by
  intro done hd
  rcases h.settled with hn | ⟨frames, hr⟩
  · exact absurd hd (reading_ne_content_of_isIdle hn done)
  · rw [hr] at hd ⊢
    exact textual_resting frames done hd

/-- The character that ends a text, without the text. -/
theorem quiet_inText_end (values markup : Bool) (frames : List Frame) (c : Char)
    (h : endsText c = true) : ((inText frames []).step markup c).Quiet values := by
  have hs : (inText frames []).step markup c = (inText frames []).stepContent [] c := rfl
  have h0 : (inText frames []).emitText .text [] = ([], inText frames []) := rfl
  rw [hs]
  unfold stepContent
  rw [h0]
  split
  · exact .andThen (by simp) (quiet_keep _ _ rfl)
  · split
    · exact .andThen (by simp) (quiet_openHole _)
    · split
      · exact .andThen (by simp) (quiet_keep _ _ rfl)
      · simp_all [endsText]

theorem textual_step (markup : Bool) (s : Control) (c : Char) (h : s.Textual) :
    (s.step markup c).2.Textual := by
  by_cases hs : ∃ done, s.reading = .content done
  · obtain ⟨done, hd⟩ := hs
    obtain ⟨frames, rfl⟩ := h done hd
    by_cases hc : endsText c = true
    · rw [step_inText_end markup frames done c hc]
      have ht := textual_of_quiet (quiet_inText_end true markup frames c hc)
      exact ht
    · rw [step_inText markup frames done c (by simpa using hc)]
      intro d hd
      cases hd
      exact ⟨frames, rfl⟩
  · exact textual_of_quiet (quiet_step markup s c (fun done hd => hs ⟨done, hd⟩) (.inl rfl))

theorem textual_run (markup : Bool) (s : Control) (text : List Char) (h : s.Textual) :
    (s.run markup text).2.Textual := by
  induction text generalizing s with
  | nil => exact h
  | cons c r ih => exact ih _ (textual_step markup s c h)

/-- After a quiet step no character of a text has been read. -/
theorem not_inText_cons_of_quiet {e : Emission} (h : e.Quiet values) (frames : List Frame)
    (c : Char) (done : List Char) : e.2 ≠ inText frames (c :: done) := by
  intro he
  rcases h.settled with hn | ⟨fs, hr⟩
  · exact reading_ne_content_of_isIdle hn (c :: done) (by rw [he]; rfl)
  · have hreading : (resting fs).reading = .content (c :: done) := by
      rw [← hr, he]
      rfl
    unfold resting at hreading
    split at hreading
    · cases hreading
    · cases hreading

/-- Text grows only by a step inside it, which adds its character. -/
theorem step_eq_inText_cons {markup : Bool} {s : Control} {c d : Char} {frames : List Frame}
    {done : List Char} (hs : s.Textual) (h : (s.step markup c).2 = inText frames (d :: done)) :
    s = inText frames done ∧ c = d ∧ endsText c = false ∧
      s.step markup c = ([], inText frames (d :: done)) := by
  by_cases hr : ∃ done, s.reading = .content done
  · obtain ⟨read, hd⟩ := hr
    obtain ⟨fs, rfl⟩ := hs read hd
    by_cases hc : endsText c = true
    · rw [step_inText_end markup fs read c hc] at h
      exact absurd h (not_inText_cons_of_quiet (quiet_inText_end true markup fs c hc) frames d done)
    · have hstep := step_inText markup fs read c (by simpa using hc)
      rw [hstep] at h
      cases h
      exact ⟨rfl, rfl, by simpa using hc, hstep⟩
  · have hq := quiet_step markup s c (fun done hd => hr ⟨done, hd⟩) (.inl rfl)
    exact absurd h (not_inText_cons_of_quiet hq frames d done)

theorem textual_start : start.Textual := by
  intro done h
  cases h

theorem run_concat (markup : Bool) (s : Control) (text : List Char) (c : Char) :
    s.run markup (text ++ [c]) = (s.run markup text).andThen (·.step markup c) := by
  rw [run_append]
  simp [run, Emission.andThen]

/-- The text read so far is the end of what has been read, and before it the state was at the
beginning of a text. -/
theorem run_eq_inText {markup : Bool} {text : List Char} {ts : List Token} {frames : List Frame}
    {done : List Char} (h : start.run markup text = (ts, inText frames done)) :
    ∃ before, text = before ++ done.reverse ∧ (∀ c ∈ done, endsText c = false) ∧
      start.run markup before = (ts, inText frames []) := by
  induction text using List.reverseRecOn generalizing ts frames done with
  | nil => cases h
  | append_singleton r c ih =>
      cases done with
      | nil => exact ⟨r ++ [c], by simp, by simp, h⟩
      | cons d done =>
          have hstate : ((start.run markup r).2.step markup c).2 = inText frames (d :: done) := by
            rw [run_concat] at h
            exact congrArg Prod.snd h
          obtain ⟨hr, rfl, hc, hstep⟩ :=
            step_eq_inText_cons (textual_run markup start r textual_start) hstate
          have hts : (start.run markup r).1 = ts := by
            rw [run_concat, Emission.andThen, hstep] at h
            simpa using congrArg Prod.fst h
          obtain ⟨before, hb, hdone, hrun⟩ := ih (Prod.ext hts hr)
          refine ⟨before, by simp [hb], ?_, hrun⟩
          intro e he
          rcases List.mem_cons.1 he with rfl | he
          · exact hc
          · exact hdone e he

theorem flush_isCode (values : Bool) (s : Control) (h : ∀ done, s.reading ≠ .content done) :
    ∀ t ∈ s.flush.1, t.isCode values = true := by
  unfold flush
  simp only []
  split
  case h_5 => simp [sign_dot]
  case h_10 => simp [sign_slash]
  case h_23 hr => exact absurd hr (h _)
  case h_2 | h_6 | h_16 =>
    split <;> simp [Token.isCode, Token.isProper]
  all_goals
    simp [Token.isCode, Token.isProper, emitComment, Emission.update, openTag, emitTagName,
      Emission.andThen]

theorem finish_kind_ne_text (s : Control) (h : ∀ done, s.reading ≠ .content done) :
    ∀ t ∈ s.finish, t.kind ≠ .text := by
  intro t ht
  rcases List.mem_append.1 ht with hf | hs
  · exact (Token.proper_of_isCode (flush_isCode true s h t hf)).2
  · rw [List.mem_singleton.1 hs]
    simp

theorem finish_inText_kind_ne_text (frames : List Frame) :
    ∀ t ∈ (inText frames []).finish, t.kind ≠ .text := by
  have hf : (inText frames []).finish = [⟨.stop, [], []⟩] := rfl
  simp [hf]

/-- Among code after the token of a text there is no other token of text. -/
theorem textToken_append_eq {done gap w : List Char} {code X Z : List Token}
    (hcode : ∀ t ∈ code, t.kind ≠ .text) (h : textToken done ++ code = X ++ ⟨.text, gap, w⟩ :: Z) :
    X = [] ∧ gap = [] ∧ w = done.reverse ∧ Z = code := by
  rcases append_eq_append_cons h with ⟨W, -, hW⟩ | ⟨W, hX, hZ⟩
  · exact absurd rfl (hcode ⟨.text, gap, w⟩ (by simp [hW]))
  · unfold textToken at hX
    split at hX
    · simp at hX
    · cases X with
      | nil =>
          simp only [List.nil_append, List.cons.injEq, Token.mk.injEq] at hX
          obtain ⟨⟨-, rfl, rfl⟩, rfl⟩ := hX
          exact ⟨rfl, rfl, rfl, hZ⟩
      | cons x X => simp at hX

/-- A token of text found where the text `rest` is still to be read. -/
theorem tokensFrom_eq_text {markup : Bool} {before rest : List Char} {ts : List Token}
    {s : Control} (hs : start.run markup before = (ts, s)) {gap w : List Char} {X Y : List Token}
    (h : s.tokensFrom markup rest = X ++ ⟨.text, gap, w⟩ :: Y) :
    ∃ P Q frames, before ++ rest = P ++ w ++ Q ∧ gap = [] ∧ (∀ c ∈ w, endsText c = false) ∧
      start.run markup P = (ts ++ X, inText frames []) ∧ TextEnds Q ∧
      Y = (inText frames []).tokensFrom markup Q := by
  have hs2 : s = (start.run markup before).2 := by rw [hs]
  have hst : s.Textual := by
    rw [hs2]
    exact textual_run markup start before textual_start
  induction rest generalizing before ts s X with
  | nil =>
      have hfin : s.finish = X ++ ⟨.text, gap, w⟩ :: Y := h
      by_cases hr : ∃ done, s.reading = .content done
      · obtain ⟨done, hd⟩ := hr
        obtain ⟨frames, rfl⟩ := hst done hd
        obtain ⟨P, hP, hw, hrun⟩ := run_eq_inText hs
        have hend : TextEnds [] := by simp [TextEnds]
        have hall := tokensFrom_inText markup frames done [] hend
        rw [h] at hall
        obtain ⟨rfl, rfl, rfl, rfl⟩ :=
          textToken_append_eq (finish_inText_kind_ne_text frames) hall.symm
        refine ⟨P, [], frames, by simp [hP], rfl, by simpa using hw, by simpa using hrun, hend, rfl⟩
      · exact absurd rfl (finish_kind_ne_text s (fun done hd => hr ⟨done, hd⟩) ⟨.text, gap, w⟩
          (by simp [hfin]))
  | cons c r ih =>
      rw [tokensFrom_cons] at h
      rcases append_eq_append_cons h with ⟨Z, hX, hZ⟩ | ⟨Z, hX, hZ⟩
      · have hrun : start.run markup (before ++ [c]) =
            (ts ++ (s.step markup c).1, (s.step markup c).2) := by
          rw [run_concat, hs]
          rfl
        have hst' := textual_step markup s c hst
        obtain ⟨P, Q, frames, hsplit, hg, hw, hP, hQ, hY⟩ := ih hrun hZ (by rw [hrun]) hst'
        refine ⟨P, Q, frames, by simpa using hsplit, hg, hw, ?_, hQ, hY⟩
        rw [hP, hX]
        simp
      · by_cases hr : ∃ done, s.reading = .content done
        · obtain ⟨done, hd⟩ := hr
          obtain ⟨frames, rfl⟩ := hst done hd
          obtain ⟨P, hP, hw, hrun⟩ := run_eq_inText hs
          by_cases hc : endsText c = true
          · rw [step_inText_end markup frames done c hc] at hX
            obtain ⟨rfl, rfl, rfl, rfl⟩ :=
              textToken_append_eq (fun t ht => (Token.proper_of_isCode
                ((quiet_inText_end true markup frames c hc).code t ht)).2) hX
            refine ⟨P, c :: r, frames, by simp [hP], rfl, by simpa using hw, by simpa using hrun,
              by simpa [TextEnds] using hc, ?_⟩
            rw [hZ, step_inText_end markup frames done c hc, tokensFrom_cons]
          · rw [step_inText markup frames done c (by simpa using hc)] at hX
            simp at hX
        · have hquiet := quiet_step markup s c (fun done hd => hr ⟨done, hd⟩) (.inl rfl)
          have hcode := hquiet.code ⟨.text, gap, w⟩ (by simp [hX])
          exact absurd rfl (Token.proper_of_isCode hcode).2

end Control

open Control

/-- A token of text among the tokens of a file: where it stands in the file, and the state of the
lexer before and after it. -/
theorem tokens_eq_text {markup : Bool} {text gap w : List Char} {X Y : List Token}
    (h : tokens markup text = X ++ ⟨.text, gap, w⟩ :: Y) :
    ∃ P Q frames, text = P ++ w ++ Q ∧ gap = [] ∧ (∀ c ∈ w, endsText c = false) ∧
      start.run markup P = (X, inText frames []) ∧ TextEnds Q ∧
      Y = (inText frames []).tokensFrom markup Q := by
  have hstart : start.run markup [] = ([], start) := rfl
  obtain ⟨P, Q, frames, hsplit, hrest⟩ := tokensFrom_eq_text hstart h
  exact ⟨P, Q, frames, by simpa using hsplit, hrest⟩

/-- Something else in the place of an element text: the tokens around it stay. -/
theorem tokens_replace {markup : Bool} {P N Q : List Char} {X new : List Token}
    {frames : List Frame} {done : List Char} (hP : start.run markup P = (X, inText frames []))
    (hN : (inText frames []).run markup N = (new, inText frames done)) (hQ : TextEnds Q) :
    tokens markup (P ++ N ++ Q) =
      X ++ (new ++ textToken done) ++ (inText frames []).tokensFrom markup Q := by
  have hPN : start.run markup (P ++ N) = (X ++ new, inText frames done) := by
    rw [run_append, hP, Emission.andThen, hN]
  have hall : tokens markup (P ++ N ++ Q) = start.tokensFrom markup (P ++ N ++ Q) := rfl
  rw [hall, tokensFrom_append, hPN, tokensFrom_inText markup frames done Q hQ]
  simp

/-! ### Tokens stand for themselves -/

theorem textToken_isProper (done : List Char) : ∀ t ∈ textToken done, t.isProper = true := by
  unfold textToken
  split
  · simp
  · simp [Token.isProper]

theorem step_isProper (markup : Bool) (s : Control) (c : Char) (hs : s.Textual) :
    ∀ t ∈ (s.step markup c).1, t.isProper = true := by
  intro t ht
  by_cases hr : ∃ done, s.reading = .content done
  · obtain ⟨done, hd⟩ := hr
    obtain ⟨frames, rfl⟩ := hs done hd
    by_cases hc : endsText c = true
    · rw [step_inText_end markup frames done c hc] at ht
      rcases List.mem_append.1 ht with hd | hq
      · exact textToken_isProper done t hd
      · exact (Token.proper_of_isCode ((quiet_inText_end true markup frames c hc).code t hq)).1
    · rw [step_inText markup frames done c (by simpa using hc)] at ht
      simp at ht
  · have hquiet := quiet_step markup s c (fun done hd => hr ⟨done, hd⟩) (.inl rfl)
    exact (Token.proper_of_isCode (hquiet.code t ht)).1

theorem run_isProper (markup : Bool) (s : Control) (text : List Char) (hs : s.Textual) :
    ∀ t ∈ (s.run markup text).1, t.isProper = true := by
  induction text generalizing s with
  | nil => simp [run]
  | cons c r ih =>
      intro t ht
      rcases List.mem_append.1 ht with hstep | hrun
      · exact step_isProper markup s c hs t hstep
      · exact ih _ (textual_step markup s c hs) t hrun

theorem flush_isProper (s : Control) (hs : s.Textual) : ∀ t ∈ s.flush.1, t.isProper = true := by
  intro t ht
  by_cases hr : ∃ done, s.reading = .content done
  · obtain ⟨done, hd⟩ := hr
    obtain ⟨frames, rfl⟩ := hs done hd
    rw [flush_inText] at ht
    exact textToken_isProper done t ht
  · exact (Token.proper_of_isCode (flush_isCode true s (fun done hd => hr ⟨done, hd⟩) t ht)).1

/-- Every token of a file stands for characters of it, but for the last. -/
theorem tokens_isProper (markup : Bool) (text : List Char) :
    ∃ body gap, tokens markup text = body ++ [⟨.stop, gap, []⟩] ∧
      ∀ t ∈ body, t.isProper = true := by
  refine ⟨(start.run markup text).1 ++ (start.run markup text).2.flush.1,
    (start.run markup text).2.flush.2.gap.reverse, ?_, ?_⟩
  · simp [tokens, finish]
  · intro t ht
    rcases List.mem_append.1 ht with hrun | hfin
    · exact run_isProper markup start text textual_start t hrun
    · exact flush_isProper _ (textual_run markup start text textual_start) t hfin

end Phrasebook.Source
