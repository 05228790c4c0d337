import Phrasebook.Source.Lexer

/-!
What the texts of tokens look like. A sign has a character, a word has no dot, a quoted text begins
and ends with its quote, the word that begins a declaration of imports is that word, and the line
that names an interpreter is a single line. White space stands before a token and not at its ends,
but for the text of elements and templates and the end of a line that is a comment or names an
interpreter. The lexer never loses the quote that a text began with, so one step at a time is enough
to see all that.
-/

namespace Phrasebook.Source

namespace Lexeme

/-- A character that is neither white space nor a control character nor a dot. -/
def shows (c : Char) : Bool := 0x20 < c.toNat && !isBlank c && c != '.'

theorem isBlank_of_shows {c : Char} (h : shows c = true) : isBlank c = false := by
  simpa using (Bool.and_eq_true_iff.1 (Bool.and_eq_true_iff.1 h).1).2

theorem isLineEnd_of_isBlank {c : Char} (h : isBlank c = false) : isLineEnd c = false := by
  rw [Bool.eq_false_iff]
  intro hend
  simp only [isLineEnd, Bool.or_eq_true, beq_iff_eq] at hend
  have hcode : c.toNat = 0x0a ∨ c.toNat = 0x0d ∨ c.toNat = 0x2028 ∨ c.toNat = 0x2029 := by
    rcases hend with ((rfl | rfl) | hend) | hend
    · exact Or.inl rfl
    · exact Or.inr (Or.inl rfl)
    · exact Or.inr (Or.inr (Or.inl hend))
    · exact Or.inr (Or.inr (Or.inr hend))
  simp only [isBlank, Bool.or_eq_false_iff, Bool.and_eq_false_iff, decide_eq_false_iff_not,
    beq_eq_false_iff_ne] at h
  omega

theorem shows_of_isWordPart {c : Char} (h : isWordPart c = true) : shows c = true := by
  obtain ⟨hshown, hother⟩ := Bool.and_eq_true_iff.1 h
  refine Bool.and_eq_true_iff.2 ⟨hshown, bne_iff_ne.2 ?_⟩
  rintro rfl
  simp [punctuation] at hother

/-- All of ASCII from the digits to the tilde shows. -/
theorem shows_of_range {c : Char} (h : 48 ≤ c.toNat ∧ c.toNat ≤ 126) : shows c = true := by
  have hdot : c ≠ '.' := by
    rintro rfl
    simp at h
  refine Bool.and_eq_true_iff.2 ⟨?_, bne_iff_ne.2 hdot⟩
  simp only [isBlank, Bool.and_eq_true, decide_eq_true_eq, Bool.not_eq_true',
    Bool.or_eq_false_iff, Bool.and_eq_false_iff, decide_eq_false_iff_not, beq_eq_false_iff_ne]
  omega

theorem shows_of_isAlphanum {c : Char} (h : c.isAlphanum = true) : shows c = true := by
  have hranges : (decide (c.val ≥ 65 ∧ c.val ≤ 90) || c.val ≥ 97 && c.val ≤ 122 ||
      c.val ≥ 48 && c.val ≤ 57) = true := h
  simp only [Bool.or_eq_true, Bool.and_eq_true, decide_eq_true_eq, ge_iff_le,
    UInt32.le_iff_toNat_le, Char.toNat_val, UInt32.reduceToNat] at hranges
  exact shows_of_range ⟨by omega, by omega⟩

theorem shows_of_isHex {c : Char} (h : Text.isHex c = true) : shows c = true := by
  have hranges : ((decide (c.val ≥ 48) && decide (c.val ≤ 57)) || decide (97 ≤ c.val) &&
      decide (c.val ≤ 102) || decide (65 ≤ c.val) && decide (c.val ≤ 70)) = true := h
  simp only [Bool.or_eq_true, Bool.and_eq_true, decide_eq_true_eq, ge_iff_le,
    UInt32.le_iff_toNat_le, Char.toNat_val, UInt32.reduceToNat] at hranges
  exact shows_of_range ⟨by omega, by omega⟩

theorem shows_of_isDigit {c : Char} (h : c.isDigit = true) : shows c = true := by
  have hrange : (decide (c.val ≥ 48) && decide (c.val ≤ 57)) = true := h
  simp only [Bool.and_eq_true, decide_eq_true_eq, ge_iff_le, UInt32.le_iff_toNat_le,
    Char.toNat_val, UInt32.reduceToNat] at hrange
  exact shows_of_range ⟨by omega, by omega⟩

theorem shows_of_isHyphenated {c : Char} (h : isHyphenated c = true) : shows c = true := by
  simp only [isHyphenated, Bool.or_eq_true, beq_iff_eq] at h
  rcases h with ((h | rfl) | rfl) | rfl
  · exact shows_of_isAlphanum h
  · decide
  · decide
  · decide

theorem isBlank_of_extendsNumber {number : List Char} {c : Char}
    (h : extendsNumber number c = true) : isBlank c = false := by
  unfold extendsNumber at h
  split at h
  · next hc =>
    rw [beq_iff_eq.1 hc]
    decide
  · split at h
    · next hc =>
      rcases (by simpa using hc : c = '+' ∨ c = '-') with rfl | rfl
      · decide
      · decide
    · exact isBlank_of_shows (shows_of_isWordPart h)

end Lexeme

def isQuote (c : Char) : Bool := c == '"' || c == '\''

def AreBlank (gap : List Char) : Prop := ∀ c ∈ gap, Lexeme.isBlank c = true

theorem areBlank_nil : AreBlank [] := fun _ hc => (List.not_mem_nil hc).elim

theorem areBlank_cons {c : Char} {gap : List Char} (hc : Lexeme.isBlank c = true)
    (h : AreBlank gap) : AreBlank (c :: gap) :=
  List.forall_mem_cons.2 ⟨hc, h⟩

def Shown (text : List Char) : Prop := text ≠ [] ∧ ∀ c ∈ text, Lexeme.shows c = true

theorem Shown.dot_not_mem {text : List Char} (h : Shown text) : '.' ∉ text :=
  fun hdot => absurd (h.2 '.' hdot) (by decide)

theorem shown_singleton {c : Char} (h : Lexeme.shows c = true) : Shown [c] :=
  ⟨List.cons_ne_nil c [], List.forall_mem_singleton.2 h⟩

theorem Shown.cons {c : Char} {text : List Char} (h : Shown text) (hc : Lexeme.shows c = true) :
    Shown (c :: text) :=
  ⟨List.cons_ne_nil c text, List.forall_mem_cons.2 ⟨hc, h.2⟩⟩

theorem Shown.reverse {text : List Char} (h : Shown text) : Shown text.reverse :=
  ⟨by simpa using h.1, fun c hc => h.2 c (List.mem_reverse.1 hc)⟩

def IsFirm (text : List Char) : Prop :=
  (∃ c ∈ text.head?, Lexeme.isBlank c = false) ∧ ∃ c ∈ text.getLast?, Lexeme.isBlank c = false

theorem isFirm_singleton {c : Char} (h : Lexeme.isBlank c = false) : IsFirm [c] :=
  ⟨⟨c, rfl, h⟩, ⟨c, rfl, h⟩⟩

theorem IsFirm.cons {c : Char} {text : List Char} (h : IsFirm text)
    (hc : Lexeme.isBlank c = false) : IsFirm (c :: text) := by
  obtain ⟨-, d, hd, hblank⟩ := h
  exact ⟨⟨c, rfl, hc⟩, d, by rw [Option.mem_def, List.getLast?_cons, hd]; rfl, hblank⟩

theorem IsFirm.reverse {text : List Char} (h : IsFirm text) : IsFirm text.reverse := by
  simpa [IsFirm] using h.symm

theorem Shown.isFirm {text : List Char} (h : Shown text) : IsFirm text := by
  refine ⟨⟨text.head h.1, List.head_mem_head? h.1, ?_⟩,
    ⟨text.getLast h.1, List.getLast_mem_getLast? h.1, ?_⟩⟩
  · exact Lexeme.isBlank_of_shows (h.2 _ (List.head_mem h.1))
  · exact Lexeme.isBlank_of_shows (h.2 _ (List.getLast_mem h.1))

def IsBang (text : List Char) : Prop := text.head? = some '#' ∧ '\n' ∉ text

def IsQuoted (text : List Char) : Prop :=
  ∃ c, isQuote c = true ∧ text.head? = some c ∧ text.getLast? = some c

def IsRemark (text : List Char) : Prop :=
  text.head? = some '/' ∧
    (text.getLast? = some '/' ∨ ∀ c ∈ text, Lexeme.isLineEnd c = false)

namespace Token

def Looks (t : Token) : Prop :=
  match t.kind with
  | .word => Shown t.text
  | .sign => ∃ c, t.text = [c] ∧ Lexeme.isBlank c = false
  | .string | .attribute => IsQuoted t.text
  | .importWord => t.text = "import".toList
  | .hashBang => IsBang t.text
  | .comment => IsRemark t.text
  | .text | .chunk | .broken _ | .stop | .border => True
  | .nested _ _ => False
  | _ => IsFirm t.text

structure Solid (t : Token) : Prop where
  blank : AreBlank t.gap
  looks : t.Looks

end Token

def BeganWith (c : Char) (done : List Char) : Prop := done.getLast? = some c

theorem BeganWith.cons {c : Char} {done : List Char} (h : BeganWith c done) (d : Char) :
    BeganWith c (d :: done) := by
  rw [BeganWith, List.getLast?_cons, h]
  rfl

theorem BeganWith.head? {c : Char} {done : List Char} (h : BeganWith c done) :
    done.reverse.head? = some c := by
  rw [List.head?_reverse]
  exact h

/-- A quoted text under way has a quote, with which it began. -/
def QuotedSo (quote : Char) (done : List Char) : Prop :=
  isQuote quote = true ∧ BeganWith quote done

theorem quotedSo_cons {quote : Char} {done : List Char} (h : QuotedSo quote done) (c : Char) :
    QuotedSo quote (c :: done) :=
  ⟨h.1, h.2.cons c⟩

theorem QuotedSo.isQuoted {quote : Char} {done : List Char} (h : QuotedSo quote done) :
    IsQuoted (quote :: done).reverse :=
  ⟨quote, h.1, (h.2.cons quote).head?, by simp⟩

/-- What is under way can end as a token of its kind: a line that names an interpreter or is a
comment has not ended yet. -/
def Reading.Sane : Reading → Prop
  | .word done | .privateWord done | .tagWord done _ => Shown done
  | .number done => IsFirm done
  | .wordEscape done e => Shown done ∧ e.isOpen = true
  | .importing after => AreBlank after
  | .hashBang done => IsBang done.reverse
  | .lineComment done => BeganWith '/' done ∧ ∀ c ∈ done, Lexeme.isLineEnd c = false
  | .blockComment done | .regex done _ _ => BeganWith '/' done
  | .regexFlags done => BeganWith '/' done ∧ ∃ c ∈ done.head?, Lexeme.isBlank c = false
  | .quoted quote done _ | .attribute quote done _ => QuotedSo quote done
  | .angle before => AreBlank before
  | .angleName before name => AreBlank before ∧ Shown name
  | .angleSpace before name after => AreBlank before ∧ Shown name ∧ AreBlank after
  | .angleWord before name after second =>
      AreBlank before ∧ Shown name ∧ AreBlank after ∧ Shown second
  | _ => True

structure Control.Sane (s : Control) : Prop where
  blank : AreBlank s.gap
  reading : s.reading.Sane

structure Emission.Sound (e : Emission) : Prop where
  solid : ∀ t ∈ e.1, t.Solid
  sane : e.2.Sane

theorem Emission.Sound.andThen {e : Emission} {f : Control → Emission} (he : e.Sound)
    (hf : ∀ s : Control, s.Sane → (f s).Sound) : (e.andThen f).Sound := by
  refine ⟨?_, (hf _ he.sane).sane⟩
  intro t ht
  rcases List.mem_append.1 ht with ht | ht
  · exact he.solid t ht
  · exact (hf _ he.sane).solid t ht

theorem Emission.Sound.update {e : Emission} {f : Control → Control} (he : e.Sound)
    (hf : ∀ s : Control, s.Sane → (f s).Sane) : (e.update f).Sound :=
  ⟨he.solid, hf _ he.sane⟩

namespace Control

variable {s : Control}

theorem sane_resting (frames : List Frame) : (resting frames).Sane := by
  refine ⟨areBlank_nil, ?_⟩
  unfold resting
  split <;> trivial

theorem sane_entering (frames : List Frame) : (entering frames).Sane := ⟨areBlank_nil, trivial⟩

theorem sane_heading (frames : List Frame) : (heading frames).Sane := ⟨areBlank_nil, trivial⟩

theorem areBlank_reverse (hs : AreBlank s.gap) : AreBlank s.gap.reverse :=
  fun c hc => hs c (List.mem_reverse.1 hc)

/-- A token with the white space before it. -/
theorem sound_one {kind : TokenKind} {text : List Char} {next : Control} (hs : AreBlank s.gap)
    (h : Token.Looks ⟨kind, s.gap.reverse, text⟩) (hnext : next.Sane) :
    Emission.Sound ([⟨kind, s.gap.reverse, text⟩], next) :=
  ⟨List.forall_mem_singleton.2 ⟨areBlank_reverse hs, h⟩, hnext⟩

theorem sound_emit (kind : TokenKind) {text : List Char} {operand : Bool} (hs : AreBlank s.gap)
    (h : Token.Looks ⟨kind, s.gap.reverse, text⟩) : (s.emit kind text operand).Sound :=
  sound_one hs h ⟨areBlank_nil, trivial⟩

theorem sound_sign {c : Char} (hs : AreBlank s.gap) (hc : Lexeme.isBlank c = false)
    (operand : Bool) : (s.emit .sign [c] operand).Sound :=
  sound_emit .sign hs ⟨c, rfl, hc⟩

theorem sound_emitComment {done : List Char} (hs : AreBlank s.gap) (h : IsRemark done.reverse) :
    (s.emitComment done).Sound :=
  sound_one hs h ⟨areBlank_nil, trivial⟩

theorem sound_keep {r : Reading} (hs : AreBlank s.gap) (h : r.Sane) : (s.keep r).Sound :=
  ⟨fun _ ht => (List.not_mem_nil ht).elim, hs, h⟩

theorem sound_space {c : Char} (hs : s.Sane) (hc : Lexeme.isBlank c = true) : (s.space c).Sound :=
  ⟨fun _ ht => (List.not_mem_nil ht).elim, areBlank_cons hc hs.blank, hs.reading⟩

theorem sound_emitText {kind : TokenKind} (done : List Char) (hkind : kind = .text ∨ kind = .chunk)
    (hs : s.Sane) : (s.emitText kind done).Sound := by
  unfold emitText
  split
  · exact ⟨fun _ ht => (List.not_mem_nil ht).elim, hs⟩
  · rcases hkind with rfl | rfl
    · exact sound_one hs.blank trivial ⟨areBlank_nil, hs.reading⟩
    · exact sound_one hs.blank trivial ⟨areBlank_nil, hs.reading⟩

theorem sane_frames (frames : List Frame) (hs : s.Sane) : Control.Sane { s with frames } :=
  ⟨hs.blank, hs.reading⟩

theorem sound_closeFrame {c : Char} (hs : AreBlank s.gap) (hc : Lexeme.isBlank c = false)
    (frames : List Frame) (operand : Bool) : (s.closeFrame c frames operand).Sound :=
  (sound_sign hs hc operand).update fun _ h => sane_frames frames h

theorem sound_openFrame {c : Char} (hs : AreBlank s.gap) (hc : Lexeme.isBlank c = false)
    (frame : Frame) : (s.openFrame c frame).Sound :=
  (sound_sign hs hc true).update fun _ h => sane_frames _ h

theorem sound_emitEnd {c : Char} (hs : AreBlank s.gap) (hc : Lexeme.isBlank c = false) :
    (s.emitEnd c).Sound :=
  sound_one hs ⟨c, rfl, hc⟩ (sane_entering [])

theorem sound_closeBrace (hs : AreBlank s.gap) : s.closeBrace.Sound := by
  have hbrace : Lexeme.isBlank '\x7d' = false := by decide
  unfold closeBrace
  split
  · split
    · exact sound_emitEnd hs hbrace
    · exact (sound_sign hs hbrace _).update fun _ h => sane_frames _ h
  · exact sound_one hs (isFirm_singleton hbrace) (sane_entering [])
  · exact (sound_sign hs hbrace _).update fun _ h => ⟨h.blank, trivial⟩
  · exact sound_one hs (isFirm_singleton hbrace) (sane_resting _)
  · exact sound_sign hs hbrace _

theorem sound_closeTypeArguments (hs : AreBlank s.gap) (frames : List Frame) :
    (s.closeTypeArguments frames).Sound := by
  have hangle : Lexeme.isBlank '>' = false := by decide
  unfold closeTypeArguments
  split
  · exact sound_one hs ⟨_, rfl, hangle⟩ (sane_resting _)
  · exact sound_closeFrame hs hangle _ _

theorem sound_punctuation {c : Char} (hs : AreBlank s.gap) (hc : Lexeme.isBlank c = false) :
    (s.sign c).Sound := by
  unfold sign
  split
  · exact sound_openFrame hs hc _
  · exact sound_openFrame hs hc _
  · exact sound_openFrame hs hc _
  · exact sound_closeFrame hs hc _ _
  · exact sound_sign hs hc _
  · exact sound_closeFrame hs hc _ _
  · exact sound_sign hs hc _
  · exact sound_closeBrace hs
  · exact sound_openFrame hs hc _
  · split
    · exact sound_sign hs hc _
    · exact sound_closeTypeArguments hs _
  · exact sound_emitEnd hs hc
  · exact sound_sign hs hc _

theorem sound_openTag (hs : AreBlank s.gap) : s.openTag.Sound :=
  sound_one hs (isFirm_singleton (by decide)) (sane_resting _)

theorem sound_openHole (hs : AreBlank s.gap) : s.openHole.Sound :=
  sound_one hs (isFirm_singleton (by decide)) (sane_entering _)

theorem sound_closeTag (hs : AreBlank s.gap) : s.closeTag.Sound := by
  have hangle : Lexeme.isBlank '>' = false := by decide
  unfold closeTag
  repeat' split
  · exact ⟨List.forall_mem_singleton.2 ⟨areBlank_nil, isFirm_singleton hangle⟩, sane_resting _⟩
  · exact sound_one hs (isFirm_singleton hangle) (sane_resting _)
  · exact sound_one hs (isFirm_singleton hangle) (sane_resting _)
  · exact sound_sign hs hangle _

theorem sound_emitWord {word : List Char} (hs : AreBlank s.gap) (h : Shown word) :
    (s.emitWord word).Sound := by
  unfold emitWord
  exact (sound_emit .word hs h).update fun _ h => ⟨h.blank, h.reading⟩

theorem sound_beginTag (c : Char) (hs : s.Sane) : (s.beginTag c).Sound := by
  have hgap := hs.blank
  unfold beginTag
  by_cases hblank : Lexeme.isBlank c = true
  · rw [if_pos hblank]
    exact sound_space hs hblank
  · rw [if_neg hblank]
    rw [Bool.not_eq_true] at hblank
    repeat' split
    · next hq => exact sound_keep hgap ⟨hq, rfl⟩
    · exact sound_openHole hgap
    · exact sound_keep hgap trivial
    · exact sound_closeTag hgap
    · exact sound_openTag hgap
    · exact (sound_sign hgap hblank _).update fun _ h => sane_frames _ h
    · next hword =>
      exact sound_keep hgap
        (shown_singleton (Lexeme.shows_of_isWordPart (Bool.and_eq_true_iff.1 hword).1))
    · exact sound_sign hgap hblank _

theorem sound_beginToken (markup : Bool) {c : Char} (hgap : AreBlank s.gap)
    (hblank : Lexeme.isBlank c = false) : (s.beginToken markup c).Sound := by
  unfold beginToken
  repeat' split
  · next hq => exact sound_keep hgap ⟨hq, rfl⟩
  · exact (sound_sign hgap hblank _).update fun _ h => ⟨h.blank, trivial⟩
  · exact sound_keep hgap trivial
  · exact sound_keep hgap trivial
  · exact sound_keep hgap trivial
  · next hc =>
    rw [beq_iff_eq.1 hc]
    exact sound_keep hgap ⟨shown_singleton (by decide), rfl⟩
  · next hdigit =>
    exact sound_keep hgap
      (isFirm_singleton (Lexeme.isBlank_of_shows (Lexeme.shows_of_isDigit hdigit)))
  · next hword => exact sound_keep hgap (shown_singleton (Lexeme.shows_of_isWordPart hword))
  · exact sound_keep hgap areBlank_nil
  · exact sound_punctuation hgap hblank

theorem sound_beginCode (markup : Bool) (c : Char) (hs : s.Sane) :
    (s.beginCode markup c).Sound := by
  unfold beginCode
  split
  · next hblank => exact sound_space hs hblank
  · next hblank => exact sound_beginToken markup hs.blank (Bool.not_eq_true _ ▸ hblank)

theorem sound_begin (markup : Bool) (c : Char) (hs : s.Sane) : (s.begin markup c).Sound := by
  unfold begin
  split
  · exact sound_beginTag c hs
  · exact sound_beginTag c hs
  · exact sound_beginCode markup c hs

theorem sound_stepContent (done : List Char) (c : Char) (hs : s.Sane) :
    (s.stepContent done c).Sound := by
  have htext := sound_emitText done (Or.inl rfl) hs
  unfold stepContent
  repeat' split
  · exact htext.andThen fun _ h => sound_keep h.blank trivial
  · exact htext.andThen fun _ h => sound_openHole h.blank
  · exact htext.andThen fun _ h => sound_keep h.blank trivial
  · exact sound_keep hs.blank trivial

theorem sound_stepContentAngle (c : Char) (hs : AreBlank s.gap) : (s.stepContentAngle c).Sound := by
  unfold stepContentAngle
  split
  · refine sound_one hs ?_ (sane_resting _)
    exact ⟨⟨'<', rfl, by decide⟩, '/', rfl, by decide⟩
  · exact (sound_openTag hs).andThen fun _ h => sound_beginTag c h

theorem sound_stepTagWord {done : List Char} (hyphen : Bool) (c : Char) (hs : AreBlank s.gap)
    (h : Shown done) : (s.stepTagWord done hyphen c).Sound := by
  unfold stepTagWord
  split
  · next hc =>
    refine sound_keep hs (h.cons ?_)
    simp only [Bool.or_eq_true, Bool.and_eq_true] at hc
    rcases hc with hc | hc
    · exact Lexeme.shows_of_isHyphenated hc.2
    · exact Lexeme.shows_of_isWordPart hc.2
  · split
    · next hc =>
      refine sound_keep hs (h.cons ?_)
      rw [beq_iff_eq.1 (Bool.and_eq_true_iff.1 hc).2]
      decide
    · exact (sound_emit .word hs h.reverse).andThen fun _ h => sound_beginTag c h

theorem sound_stepAttribute {quote : Char} (done : List Char) (reference : Option (List Char))
    (c : Char) (hs : AreBlank s.gap) (hquote : QuotedSo quote done) :
    (s.stepAttribute quote done reference c).Sound := by
  unfold stepAttribute
  cases reference with
  | none =>
      simp only
      by_cases hc : (c == quote) = true
      · rw [if_pos hc, beq_iff_eq.1 hc]
        refine sound_one hs ?_ (sane_resting _)
        cases s.lastIsSign '=' <;> exact hquote.isQuoted
      · rw [if_neg hc]
        exact sound_keep hs (quotedSo_cons hquote c)
  | some since =>
      cases since with
      | nil => exact sound_keep hs (quotedSo_cons hquote c)
      | cons d since =>
          simp only
          repeat' split
          · exact sound_keep hs (quotedSo_cons hquote c)
          · exact sound_keep hs (quotedSo_cons hquote c)
          · exact sound_keep hs trivial

theorem sound_emitImport (hs : AreBlank s.gap) : s.emitImport.Sound :=
  sound_one hs rfl (sane_heading [])

theorem sound_stepImporting (markup : Bool) {after : List Char} (c : Char) (hs : AreBlank s.gap)
    (hafter : AreBlank after) : (s.stepImporting markup after c).Sound := by
  unfold stepImporting
  split
  · next hc => exact sound_keep hs (areBlank_cons hc hafter)
  · refine Emission.Sound.andThen ?_ fun _ h => sound_begin markup c ⟨hafter, h.reading⟩
    split
    · exact sound_emitWord hs ⟨by simp, List.all_eq_true.1 (by decide)⟩
    · exact sound_emitImport hs

theorem sound_stepWord (markup : Bool) {done : List Char} (c : Char) (hs : AreBlank s.gap)
    (h : Shown done) : (s.stepWord markup done c).Sound := by
  unfold stepWord
  repeat' split
  · next hc => exact sound_keep hs (h.cons (Lexeme.shows_of_isWordPart hc))
  · next hc =>
    rw [beq_iff_eq.1 hc]
    exact sound_keep hs ⟨h.cons (by decide), rfl⟩
  · exact sound_stepImporting markup c hs areBlank_nil
  · exact (sound_emitWord hs h.reverse).andThen fun _ h => sound_begin markup c h

/-- An escape in a word goes on with a letter, a digit or a brace, and ends with one. -/
theorem next_isOpen {e e' : Escaping} {c : Char} (he : e.isOpen = true)
    (hbackslash : e = .backslash → c = 'u') (h : e.next c = some e') :
    Lexeme.shows c = true ∧ (e' = .plain ∨ e'.isOpen = true) := by
  cases e with
  | backslash =>
      obtain rfl := hbackslash rfl
      obtain rfl := Option.some.inj h
      exact ⟨by decide, Or.inr rfl⟩
  | digits left read =>
      simp only [Escaping.next] at h
      repeat' split at h
      · cases h
      · next hhex _ =>
        obtain rfl := Option.some.inj h
        exact ⟨Lexeme.shows_of_isHex (by simpa using hhex), Or.inl rfl⟩
      · next hhex _ =>
        obtain rfl := Option.some.inj h
        exact ⟨Lexeme.shows_of_isHex (by simpa using hhex), Or.inr rfl⟩
  | unicode =>
      simp only [Escaping.next] at h
      repeat' split at h
      · next hc =>
        obtain rfl := Option.some.inj h
        rw [beq_iff_eq.1 hc]
        exact ⟨by decide, Or.inr rfl⟩
      · next hhex =>
        obtain rfl := Option.some.inj h
        exact ⟨Lexeme.shows_of_isHex hhex, Or.inr rfl⟩
      · cases h
  | braced read =>
      simp only [Escaping.next] at h
      repeat' split at h
      · next hhex =>
        obtain rfl := Option.some.inj h
        exact ⟨Lexeme.shows_of_isHex hhex, Or.inr rfl⟩
      · next hc =>
        obtain rfl := Option.some.inj h
        rw [beq_iff_eq.1 (Bool.and_eq_true_iff.1 hc).1]
        exact ⟨by decide, Or.inl rfl⟩
      · cases h
  | _ => cases he

theorem sound_stepWordEscape {done : List Char} {e : Escaping} (c : Char) (hs : AreBlank s.gap)
    (h : Shown done) (he : e.isOpen = true) : (s.stepWordEscape done e c).Sound := by
  have hnext : ∀ e', (if e == .backslash && c != 'u' then none else e.next c) = some e' →
      Lexeme.shows c = true ∧ (e' = .plain ∨ e'.isOpen = true) := by
    intro e' heq
    split at heq
    · cases heq
    · next hc =>
      refine next_isOpen he (fun hbackslash => ?_) heq
      simpa [hbackslash] using hc
  unfold stepWordEscape
  split
  · next heq => exact sound_keep hs (h.cons (hnext _ heq).1)
  · next e' hplain heq =>
    obtain ⟨hc, hopen⟩ := hnext e' heq
    exact sound_keep hs ⟨h.cons hc, hopen.resolve_left hplain⟩
  · exact sound_keep hs trivial

theorem sound_stepNumber (markup : Bool) {done : List Char} (c : Char) (hs : AreBlank s.gap)
    (h : IsFirm done) : (s.stepNumber markup done c).Sound := by
  unfold stepNumber
  simp only
  repeat' split
  · next hc => exact sound_keep hs (h.cons (Lexeme.isBlank_of_extendsNumber hc))
  · exact (sound_emit .number hs h.reverse).andThen fun _ h => sound_begin markup c h
  · exact sound_keep hs trivial

theorem sound_stepRegex {done : List Char} (inClass escaped : Bool) (c : Char)
    (hs : AreBlank s.gap) (h : BeganWith '/' done) :
    (s.stepRegex done inClass escaped c).Sound := by
  unfold stepRegex
  repeat' split
  · exact sound_keep hs trivial
  · exact sound_keep hs (h.cons c)
  · exact sound_keep hs (h.cons c)
  · exact sound_keep hs (h.cons c)
  · next hc =>
    rw [beq_iff_eq.1 hc]
    exact sound_keep hs ⟨h.cons '/', '/', rfl, by decide⟩
  · exact sound_keep hs (h.cons c)

theorem sound_stepSlash (markup : Bool) (c : Char) (hs : AreBlank s.gap) :
    (s.stepSlash markup c).Sound := by
  unfold stepSlash
  repeat' split
  · exact sound_keep hs ⟨rfl, by simp [Lexeme.isLineEnd]⟩
  · exact sound_keep hs rfl
  · exact sound_stepRegex _ _ c hs rfl
  · exact (sound_punctuation hs (by decide)).andThen fun _ h => sound_begin markup c h

theorem sound_stepQuoted {quote : Char} (done : List Char) (e : Escaping) (c : Char)
    (hs : AreBlank s.gap) (hquote : QuotedSo quote done) : (s.stepQuoted quote done e c).Sound := by
  unfold stepQuoted
  repeat' split
  · exact sound_keep hs (quotedSo_cons hquote c)
  · exact sound_keep hs trivial
  · exact sound_keep hs (quotedSo_cons hquote c)
  · next hc =>
    rw [beq_iff_eq.1 hc]
    exact sound_emit .string hs hquote.isQuoted
  · exact sound_keep hs (quotedSo_cons hquote c)
  · exact sound_keep hs trivial
  · exact sound_keep hs (quotedSo_cons hquote c)

theorem sound_stepChunk (done : List Char) (e : Escaping) (c : Char) (hs : s.Sane) :
    (s.stepChunk done e c).Sound := by
  have htext := fun done => sound_emitText done (Or.inr rfl) hs
  unfold stepChunk
  simp only
  split
  · split
    · exact sound_keep hs.blank trivial
    · exact sound_keep hs.blank trivial
  · split
    · exact sound_keep hs.blank trivial
    · split
      · next hc =>
        rw [beq_iff_eq.1 hc]
        exact (htext _).andThen fun _ h =>
          (sound_sign h.blank (by decide) _).update fun _ h => sane_frames _ h
      · split
        · next hc =>
          rw [beq_iff_eq.1 (Bool.and_eq_true_iff.1 hc).1]
          refine (htext _).andThen fun _ h => Emission.Sound.update ?_ fun _ h => sane_frames _ h
          exact sound_emit .substitution h.blank ⟨⟨'$', rfl, by decide⟩, '\x7b', rfl, by decide⟩
        · split
          · exact sound_keep hs.blank trivial
          · exact sound_keep hs.blank trivial

theorem sound_emitParameter {before name : List Char} (hs : AreBlank s.gap)
    (hbefore : AreBlank before) (hname : Shown name) : (s.emitParameter before name).Sound :=
  (sound_punctuation hs (by decide)).andThen fun _ _ => sound_emitWord hbefore hname.reverse

theorem sound_emitTagName {before name : List Char} (hs : AreBlank s.gap)
    (hbefore : AreBlank before) (hname : Shown name) : (s.emitTagName before name).Sound :=
  (sound_openTag hs).andThen fun _ _ => sound_emit .word hbefore hname.reverse

theorem sound_stepAngle {before : List Char} (c : Char) (hs : AreBlank s.gap)
    (hbefore : AreBlank before) : (s.stepAngle before c).Sound := by
  unfold stepAngle
  repeat' split
  · next hc => exact sound_keep hs (areBlank_cons hc hbefore)
  · next hc =>
    exact sound_keep hs ⟨hbefore,
      shown_singleton (Lexeme.shows_of_isWordPart (Bool.and_eq_true_iff.1 hc).1)⟩
  · exact (sound_openTag hs).andThen fun _ h => sound_beginTag c ⟨hbefore, h.reading⟩

theorem sound_stepAngleName (markup : Bool) {before name : List Char} (c : Char)
    (hs : AreBlank s.gap) (hbefore : AreBlank before) (hname : Shown name) :
    (s.stepAngleName markup before name c).Sound := by
  unfold stepAngleName
  repeat' split
  · exact (sound_emitParameter hs hbefore hname).andThen fun _ h => sound_begin markup c h
  · next hc => exact sound_keep hs ⟨hbefore, hname, areBlank_cons hc areBlank_nil⟩
  · next hc => exact sound_keep hs ⟨hbefore, hname.cons (Lexeme.shows_of_isWordPart hc)⟩
  · exact (sound_openTag hs).andThen fun _ _ => sound_stepTagWord _ c hbefore hname

theorem sound_stepAngleSpace (markup : Bool) {before name after : List Char} (c : Char)
    (hs : AreBlank s.gap) (hbefore : AreBlank before) (hname : Shown name)
    (hafter : AreBlank after) : (s.stepAngleSpace markup before name after c).Sound := by
  unfold stepAngleSpace
  repeat' split
  · exact (sound_emitParameter hs hbefore hname).andThen fun _ h =>
      sound_begin markup c ⟨hafter, h.reading⟩
  · next hc => exact sound_keep hs ⟨hbefore, hname, areBlank_cons hc hafter⟩
  · next hc =>
    rw [beq_iff_eq.1 hc]
    exact sound_keep hs ⟨hbefore, hname, hafter, shown_singleton (by decide)⟩
  · exact (sound_emitTagName hs hbefore hname).andThen fun _ h =>
      sound_beginTag c ⟨hafter, h.reading⟩

theorem sound_stepAngleWord (markup : Bool) {before name after second : List Char} (c : Char)
    (hs : AreBlank s.gap) (hbefore : AreBlank before) (hname : Shown name)
    (hafter : AreBlank after) (hsecond : Shown second) :
    (s.stepAngleWord markup before name after second c).Sound := by
  unfold stepAngleWord
  repeat' split
  · next hc =>
    exact sound_keep hs ⟨hbefore, hname, hafter, hsecond.cons (Lexeme.shows_of_isWordPart hc)⟩
  · exact (sound_emitParameter hs hbefore hname).andThen fun _ _ =>
      (sound_emitWord hafter hsecond.reverse).andThen fun _ h => sound_begin markup c h
  · exact (sound_emitTagName hs hbefore hname).andThen fun _ _ =>
      sound_stepTagWord _ c hafter hsecond

theorem firm_of_regexFlags {done : List Char} (h : Reading.Sane (.regexFlags done)) :
    IsFirm done.reverse := by
  obtain ⟨hbegan, c, hc, hblank⟩ := h
  refine ⟨⟨'/', hbegan.head?, by decide⟩, c, ?_, hblank⟩
  rwa [List.getLast?_reverse]

theorem sound_step (markup : Bool) (c : Char) (hs : s.Sane) : (s.step markup c).Sound := by
  have hgap := hs.blank
  have hreading := hs.reading
  unfold step
  cases hr : s.reading with
  | nothing => exact sound_begin markup c hs
  | word done =>
      rw [hr] at hreading
      exact sound_stepWord markup c hgap hreading
  | wordEscape done e =>
      rw [hr] at hreading
      exact sound_stepWordEscape c hgap hreading.1 hreading.2
  | importing after =>
      rw [hr] at hreading
      exact sound_stepImporting markup c hgap hreading
  | dot =>
      simp only
      split
      · next hc =>
        have hdigit := Lexeme.isBlank_of_shows (Lexeme.shows_of_isDigit hc)
        exact sound_keep hgap ((isFirm_singleton (by decide)).cons hdigit)
      · exact (sound_punctuation hgap (by decide)).andThen fun _ h => sound_begin markup c h
  | number done =>
      rw [hr] at hreading
      exact sound_stepNumber markup c hgap hreading
  | hash =>
      simp only
      split
      · next hc =>
        refine sound_keep hgap ⟨rfl, ?_⟩
        rw [beq_iff_eq.1 hc]
        decide
      · split
        · next hc =>
          exact sound_keep hgap ((shown_singleton (by decide)).cons
            (Lexeme.shows_of_isWordPart (Bool.and_eq_true_iff.1 hc).1))
        · exact sound_keep hgap trivial
  | privateWord done =>
      rw [hr] at hreading
      have hshown : Shown done := hreading
      simp only
      split
      · next hc => exact sound_keep hgap (hshown.cons (Lexeme.shows_of_isWordPart hc))
      · exact (sound_emit .privateWord hgap hshown.reverse.isFirm).andThen fun _ h =>
          sound_begin markup c h
  | hashBang done =>
      rw [hr] at hreading
      obtain ⟨hhead, hline⟩ := hreading
      simp only
      split
      · have hemit : (s.emit .hashBang done.reverse true).Sound :=
          sound_emit .hashBang hgap ⟨hhead, hline⟩
        exact hemit.andThen fun _ h => sound_begin markup c h
      · next hc =>
        refine sound_keep hgap ⟨?_, ?_⟩
        · rw [List.reverse_cons, List.head?_append, hhead]
          rfl
        · rw [List.reverse_cons, List.mem_append, List.mem_singleton, not_or]
          exact ⟨hline, fun heq => hc (beq_iff_eq.2 heq.symm)⟩
  | slash => exact sound_stepSlash markup c hgap
  | lineComment done =>
      rw [hr] at hreading
      obtain ⟨hbegan, hline⟩ := hreading
      simp only
      split
      · have hremark : IsRemark done.reverse :=
          ⟨hbegan.head?, Or.inr fun d hd => hline d (List.mem_reverse.1 hd)⟩
        exact (sound_emitComment hgap hremark).andThen fun _ h => sound_begin markup c h
      · next hc =>
        exact sound_keep hgap ⟨hbegan.cons c, List.forall_mem_cons.2 ⟨by simpa using hc, hline⟩⟩
  | blockComment done =>
      rw [hr] at hreading
      have hbegan : BeganWith '/' done := hreading
      simp only
      split
      · next hc =>
        simp only [Bool.and_eq_true, beq_iff_eq] at hc
        refine sound_emitComment hgap ⟨(hbegan.cons c).head?, Or.inl ?_⟩
        rw [hc.1.1, List.getLast?_reverse]
        rfl
      · exact sound_keep hgap (hbegan.cons c)
  | regex done inClass escaped =>
      rw [hr] at hreading
      exact sound_stepRegex inClass escaped c hgap hreading
  | regexFlags done =>
      rw [hr] at hreading
      simp only
      split
      · next hc =>
        simp only [Bool.and_eq_true, decide_eq_true_eq, Char.le_def, UInt32.le_iff_toNat_le,
          Char.toNat_val, Char.reduceVal, UInt32.reduceToNat] at hc
        have hshows := Lexeme.shows_of_range (c := c) ⟨by omega, by omega⟩
        exact sound_keep hgap ⟨hreading.1.cons c, c, rfl, Lexeme.isBlank_of_shows hshows⟩
      · exact (sound_emit .regex hgap (firm_of_regexFlags hreading)).andThen fun _ h =>
          sound_begin markup c h
  | quoted quote done e =>
      rw [hr] at hreading
      exact sound_stepQuoted done e c hgap hreading
  | chunk done e => exact sound_stepChunk done e c hs
  | angle before =>
      rw [hr] at hreading
      exact sound_stepAngle c hgap hreading
  | angleName before name =>
      rw [hr] at hreading
      exact sound_stepAngleName markup c hgap hreading.1 hreading.2
  | angleSpace before name after =>
      rw [hr] at hreading
      obtain ⟨hbefore, hname, hafter⟩ := hreading
      exact sound_stepAngleSpace markup c hgap hbefore hname hafter
  | angleWord before name after second =>
      rw [hr] at hreading
      obtain ⟨hbefore, hname, hafter, hsecond⟩ := hreading
      exact sound_stepAngleWord markup c hgap hbefore hname hafter hsecond
  | tagWord done hyphen =>
      rw [hr] at hreading
      exact sound_stepTagWord hyphen c hgap hreading
  | content done => exact sound_stepContent done c hs
  | contentAngle => exact sound_stepContentAngle c hgap
  | broken done sound => exact sound_keep hgap trivial
  | _ quote done reference =>
      rw [hr] at hreading
      exact sound_stepAttribute done reference c hgap hreading

theorem sound_run (markup : Bool) (text : List Char) (hs : s.Sane) : (s.run markup text).Sound := by
  induction text generalizing s with
  | nil => exact ⟨fun _ ht => (List.not_mem_nil ht).elim, hs⟩
  | cons c r ih => exact (sound_step markup c hs).andThen fun _ h => ih h

theorem sound_flush (hs : s.Sane) : s.flush.Sound := by
  have hgap := hs.blank
  have hreading := hs.reading
  unfold flush
  cases hr : s.reading with
  | nothing => exact ⟨fun _ ht => (List.not_mem_nil ht).elim, hs⟩
  | word done =>
      rw [hr] at hreading
      simp only
      split
      · exact sound_emitImport hgap
      · exact sound_emitWord hgap (Shown.reverse hreading)
  | importing after =>
      rw [hr] at hreading
      exact (sound_emitImport hgap).update fun _ h => ⟨hreading, h.reading⟩
  | dot => exact sound_punctuation hgap (by decide)
  | slash => exact sound_punctuation hgap (by decide)
  | number done =>
      rw [hr] at hreading
      simp only
      split
      · exact sound_emit .number hgap (IsFirm.reverse hreading)
      · exact sound_emit (.broken _) hgap trivial
  | privateWord done =>
      rw [hr] at hreading
      exact sound_emit .privateWord hgap (Shown.reverse hreading).isFirm
  | hashBang done =>
      rw [hr] at hreading
      exact sound_emit .hashBang hgap hreading
  | lineComment done =>
      rw [hr] at hreading
      exact sound_emitComment hgap
        ⟨hreading.1.head?, Or.inr fun d hd => hreading.2 d (List.mem_reverse.1 hd)⟩
  | regexFlags done =>
      rw [hr] at hreading
      exact sound_emit .regex hgap (firm_of_regexFlags hreading)
  | chunk done e =>
      simp only
      split
      · exact sound_emit (.broken _) hgap trivial
      · exact sound_emit (.broken _) hgap trivial
  | angle before =>
      rw [hr] at hreading
      exact (sound_openTag hgap).update fun _ h => ⟨hreading, h.reading⟩
  | angleName before name =>
      rw [hr] at hreading
      exact sound_emitTagName hgap hreading.1 hreading.2
  | angleSpace before name after =>
      rw [hr] at hreading
      obtain ⟨hbefore, hname, hafter⟩ := hreading
      exact (sound_emitTagName hgap hbefore hname).update fun _ h => ⟨hafter, h.reading⟩
  | angleWord before name after second =>
      rw [hr] at hreading
      obtain ⟨hbefore, hname, hafter, hsecond⟩ := hreading
      exact (sound_emitTagName hgap hbefore hname).andThen fun _ _ =>
        sound_emit .word hafter hsecond.reverse
  | tagWord done hyphen =>
      rw [hr] at hreading
      exact sound_emit .word hgap (Shown.reverse hreading)
  | content done => exact sound_emitText _ (Or.inl rfl) hs
  | contentAngle => exact sound_openTag hgap
  | _ => exact sound_emit (.broken _) hgap trivial

end Control

/-- The tokens of a text look as tokens of their kinds do. -/
theorem tokens_solid (markup : Bool) (text : List Char) : ∀ t ∈ tokens markup text, t.Solid := by
  have hrun := Control.sound_run markup text (Control.sane_entering [])
  have hflush := Control.sound_flush hrun.sane
  intro t ht
  rw [tokens, Control.finish, ← List.append_assoc, List.mem_append, List.mem_append] at ht
  rcases ht with (ht | ht) | ht
  · exact hrun.solid t ht
  · exact hflush.solid t ht
  · obtain rfl := List.mem_singleton.1 ht
    exact ⟨Control.areBlank_reverse hflush.sane.blank, trivial⟩

end Phrasebook.Source
