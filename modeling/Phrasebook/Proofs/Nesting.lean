import Phrasebook.Proofs.ElementText
import Phrasebook.Source.Tree

/-!
Nesting loses no token and makes none up: what has been nested so far, written out, is the row of
tokens so far. Conversely the trees of a row that was written out are the trees it came from, if all
that is opened in them is closed. So a part of a tree can be exchanged by exchanging its tokens.
-/

namespace Phrasebook.Source

theorem TokenKind.opens_eq_false {k : TokenKind} (h : k.closes = true) : k.opens = false := by
  cases k <;> first | rfl | cases h

namespace Tree

@[simp] theorem tokens_token (t : Token) : (token t).tokens = [t] := by simp [tokens]

@[simp] theorem tokens_nested (opening : Token) (parts : List Tree) (ending : Option Token) :
    (nested opening parts ending).tokens = opening :: tokensAll parts ++ ending.toList := by
  simp [tokens]

@[simp] theorem tokensAll_nil : tokensAll [] = [] := by simp [tokensAll]

@[simp] theorem tokensAll_cons (t : Tree) (ts : List Tree) :
    tokensAll (t :: ts) = t.tokens ++ tokensAll ts := by simp [tokensAll]

theorem mem_tokensAll {ts : List Tree} {u : Token} :
    u ∈ tokensAll ts ↔ ∃ t ∈ ts, u ∈ t.tokens := by
  induction ts with
  | nil => simp
  | cons t ts ih => simp [ih]

@[simp] theorem tokensAll_append (a b : List Tree) :
    tokensAll (a ++ b) = tokensAll a ++ tokensAll b := by
  induction a with
  | nil => simp
  | cons t a ih => simp [ih]

/-- A tree made of tokens that stand for themselves, each in its place: what opens and what
closes at the two ends of a nested tree, and nothing of either kind elsewhere. At the `top` of a
file what closes nothing may stand too. In a `whole` tree all that is opened is closed. -/
inductive Formed (whole : Bool) : Bool → Tree → Prop
  | token {top : Bool} {t : Token} (proper : t.isProper = true) (opens : t.kind.opens = false)
      (closes : t.kind.closes = true → top = true) : Formed whole top (token t)
  | nested {top : Bool} {opening : Token} {parts : List Tree} {ending : Option Token}
      (proper : opening.isProper = true) (opens : opening.kind.opens = true)
      (closes : ∀ e ∈ ending, e.isProper = true ∧ e.kind.closes = true)
      (isWhole : whole = true → ending.isSome = true)
      (inner : ∀ p ∈ parts, Formed whole false p) : Formed whole top (nested opening parts ending)

theorem Formed.closes_eq_false {whole : Bool} {t : Token} (h : Formed whole false (.token t)) :
    t.kind.closes = false := by
  cases h with
  | token _ _ closes =>
      cases hk : t.kind.closes with
      | false => rfl
      | true => cases closes hk

end Tree

namespace Nesting

open Source.Tree

/-! ### No token is lost -/

def outerTokens : List (Token × List Tree) → List Token
  | [] => []
  | (opening, before) :: outer => outerTokens outer ++ tokensAll before.reverse ++ [opening]

def tokens (n : Nesting) : List Token := outerTokens n.outer ++ tokensAll n.parts.reverse

theorem closed_tokens (n : Nesting) (t : Token) : (n.closed t).tokens = n.tokens ++ [t] := by
  unfold closed
  split
  · next h => simp [tokens, outerTokens, h]
  · next h => simp [tokens, push]

theorem step_tokens (n : Nesting) (t : Token) : (n.step t).tokens = n.tokens ++ [t] := by
  unfold step
  split
  · simp [tokens, opened, outerTokens]
  · split
    · exact closed_tokens n t
    · simp [tokens, push]

theorem foldl_tokens (ts : List Token) (n : Nesting) :
    (ts.foldl step n).tokens = n.tokens ++ ts := by
  induction ts generalizing n with
  | nil => simp
  | cons t ts ih =>
      rw [List.foldl_cons, ih, step_tokens]
      simp

/-! ### Whole trees are found again -/

theorem foldl_pushAll {ts : List Tree} {n : Nesting}
    (h : ∀ t ∈ ts, ∀ m : Nesting, m.outer = n.outer → t.tokens.foldl step m = m.push t) :
    (tokensAll ts).foldl step n = ⟨ts.reverse ++ n.parts, n.outer⟩ := by
  induction ts generalizing n with
  | nil => rfl
  | cons t ts ih =>
      have hts := ih (n := n.push t) fun u hu m hm => h u (by simp [hu]) m hm
      rw [tokensAll_cons, List.foldl_append, h t (by simp) n rfl, hts]
      simp [push]

/-- The tokens of a whole tree add that tree. -/
theorem foldl_formed {top : Bool} {t : Tree} (h : Formed true top t) (n : Nesting)
    (hn : top = true → n.outer = []) : t.tokens.foldl step n = n.push t := by
  induction h generalizing n with
  | @token top t proper opens closes =>
      rw [tokens_token, List.foldl_cons, List.foldl_nil, step, opens]
      cases hc : t.kind.closes with
      | false => simp
      | true => simp [closed, hn (closes hc)]
  | @nested top opening parts ending proper opens closes isWhole inner ih =>
      obtain ⟨e, rfl⟩ := Option.isSome_iff_exists.1 (isWhole rfl)
      have he : e.kind.closes = true := (closes e rfl).2
      have hne : e.kind.opens = false := TokenKind.opens_eq_false he
      rw [tokens_nested, List.cons_append, List.foldl_cons, List.foldl_append, step, opens,
        if_pos rfl, foldl_pushAll fun p hp m _ => ih p hp m (by simp)]
      simp [step, hne, he, closed, opened, push]

end Nesting

namespace Tree

/-- Whole trees are found again by their tokens, with the token after them. -/
theorem ofTokens_concat {ts : List Tree} (h : ∀ t ∈ ts, Formed true true t) {last : Token}
    (hopens : last.kind.opens = false) (hcloses : last.kind.closes = false) :
    ofTokens (tokensAll ts ++ [last]) = ts ++ [token last] := by
  have hfold : (tokensAll ts).foldl Nesting.step .start = ⟨ts.reverse ++ [], []⟩ :=
    Nesting.foldl_pushAll fun t ht m hm => Nesting.foldl_formed (h t ht) m fun _ => hm
  rw [ofTokens, List.foldl_append, hfold]
  simp [Nesting.step, hopens, hcloses, Nesting.push, Nesting.finish]

end Tree

/-! ### The trees of a file are formed -/

namespace Nesting

open Source.Tree

/-- What has been opened is in order. Outside of all trees, tokens that close nothing may be
among the parts. -/
def SoundOuter : List (Token × List Tree) → Prop
  | [] => True
  | (opening, before) :: outer =>
      opening.isProper = true ∧ opening.kind.opens = true ∧
        (∀ t ∈ before, Formed false outer.isEmpty t) ∧ SoundOuter outer

structure Sound (n : Nesting) : Prop where
  parts : ∀ t ∈ n.parts, Formed false n.outer.isEmpty t
  outer : SoundOuter n.outer

theorem Sound.push {n : Nesting} (h : n.Sound) {t : Tree} (ht : Formed false n.outer.isEmpty t) :
    (n.push t).Sound :=
  ⟨List.forall_mem_cons.2 ⟨ht, h.parts⟩, h.outer⟩

theorem sound_step {n : Nesting} (h : n.Sound) {t : Token} (ht : t.isProper = true) :
    (n.step t).Sound := by
  unfold step
  split
  case isTrue hopens => exact ⟨by simp [opened], ht, hopens, h.parts, h.outer⟩
  case isFalse hopens =>
    split
    case isFalse hcloses =>
      exact h.push (.token ht (by simpa using hopens) (absurd · hcloses))
    case isTrue hcloses =>
      obtain ⟨parts, outer⟩ := n
      cases outer with
      | nil => exact h.push (.token ht (by simpa using hopens) fun _ => rfl)
      | cons frame outer =>
          obtain ⟨proper, opens, before, around⟩ := h.outer
          have hinner : ∀ p ∈ parts.reverse, Formed false false p := by
            simpa using h.parts
          have htree : Formed false outer.isEmpty (.nested frame.1 parts.reverse (some t)) :=
            .nested proper opens (by simp [ht, hcloses]) (by simp) hinner
          exact ⟨List.forall_mem_cons.2 ⟨htree, before⟩, around⟩

theorem sound_foldl {ts : List Token} (hts : ∀ t ∈ ts, t.isProper = true) {n : Nesting}
    (h : n.Sound) : (ts.foldl step n).Sound := by
  induction ts generalizing n with
  | nil => exact h
  | cons t ts ih =>
      exact ih (fun u hu => hts u (by simp [hu])) (sound_step h (hts t (by simp)))

/-- What is still open at the end is among the trees, and no token in it closes anything. -/
theorem exists_unclosed {parts : List Tree} {outer : List (Token × List Tree)} (hne : outer ≠ [])
    (hparts : ∀ t, .token t ∈ parts → t.kind.closes = false) (houter : SoundOuter outer) :
    ∃ opening inner, .nested opening inner none ∈ finish parts outer ∧
      opening.kind.opens = true ∧ ∀ t, .token t ∈ inner → t.kind.closes = false := by
  induction outer generalizing parts with
  | nil => exact absurd rfl hne
  | cons frame outer ih =>
      obtain ⟨opening, before⟩ := frame
      obtain ⟨proper, opens, hbefore, around⟩ := houter
      cases outer with
      | nil => exact ⟨opening, parts.reverse, by simp [finish], opens, by simpa using hparts⟩
      | cons frame outer =>
          refine ih (by simp) (fun t ht => ?_) around
          rcases List.mem_cons.1 ht with ht | ht
          · cases ht
          · exact (hbefore _ ht).closes_eq_false

end Nesting

namespace Tree

/-- The trees of a row of tokens and one more: they are formed and the last token stands after
them, or else something is left open. -/
theorem ofTokens_cases {body : List Token} (h : ∀ t ∈ body, t.isProper = true) {last : Token}
    (hopens : last.kind.opens = false) (hcloses : last.kind.closes = false) :
    (∃ trees, ofTokens (body ++ [last]) = trees ++ [token last] ∧ tokensAll trees = body ∧
        ∀ t ∈ trees, Formed false true t) ∨
      ∃ opening inner, nested opening inner none ∈ ofTokens (body ++ [last]) ∧
        opening.kind.opens = true ∧ ∀ t, token t ∈ inner → t.kind.closes = false := by
  have hs : Nesting.start.Sound := ⟨by simp [Nesting.start], trivial⟩
  have hn := Nesting.sound_foldl h hs
  have htokens := Nesting.foldl_tokens body .start
  generalize hfold : body.foldl Nesting.step .start = n at hn htokens
  have hall : ofTokens (body ++ [last]) = Nesting.finish (token last :: n.parts) n.outer := by
    rw [ofTokens, List.foldl_append, hfold]
    simp [Nesting.step, hopens, hcloses, Nesting.push]
  obtain ⟨parts, outer⟩ := n
  cases outer with
  | nil =>
      refine Or.inl ⟨parts.reverse, by simp [hall, Nesting.finish], ?_, by simpa using hn.parts⟩
      simpa [Nesting.tokens, Nesting.outerTokens, Nesting.start] using htokens
  | cons frame outer =>
      refine Or.inr ?_
      rw [hall]
      refine Nesting.exists_unclosed (by simp) (fun t ht => ?_) hn.outer
      rcases List.mem_cons.1 ht with ht | ht
      · cases ht
        exact hcloses
      · exact (hn.parts _ ht).closes_eq_false

end Tree

end Phrasebook.Source
