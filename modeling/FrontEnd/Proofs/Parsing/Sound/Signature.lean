import FrontEnd.Proofs.Parsing.Takes

set_option autoImplicit false

/-! # Types and the heads of functions are read soundly

A checker sees the name of a function and its arguments; types do not concern it. The list of
arguments is read with fuel, of which there is enough as long as it exceeds the number of unread
tokens.

Fuel matters here, where it did not for expressions: a list of arguments that is out of fuel does not
fail but ends, and without a closing parenthesis it would not have the form that is claimed.
-/

namespace FrontEnd.Grammar

open FrontEnd.Grammar.Parser

variable {s s' : State} {c : Checker}

/-! ## Types -/

theorem Takes.typeExpr (hs : s.Lexed) {place : Place} {type : TypeExpr}
    (h : Parser.typeExpr place s = .ok type s') : ∃ t, isType t.kind ∧ Takes s [t] c c s' := by
  rw [Parser.typeExpr, current_bind] at h
  refine ⟨s.current, ?_⟩
  generalize hk : s.current.kind = k at h ⊢
  have hadvance (hne : k ≠ .endOfFile) : Takes s [s.current] c c s.advance :=
    .ofAdvance hs (hk ▸ hne)
  split at h
  · rw [advance_bind, locate_bind] at h
    obtain ⟨rfl, rfl⟩ := pure_eq_ok.mp h
    exact ⟨rfl, hadvance (by simp)⟩
  · rw [advance_bind, locate_bind] at h
    obtain ⟨rfl, rfl⟩ := pure_eq_ok.mp h
    exact ⟨rfl, hadvance (by simp)⟩
  · rw [advance_bind, locate_bind] at h
    obtain ⟨rfl, rfl⟩ := pure_eq_ok.mp h
    exact ⟨rfl, hadvance (by simp)⟩
  · exact absurd h failExpecting_ne_ok

theorem Takes.furtherTypes {fuel : Nat} (hs : s.Lexed) {types : List TypeExpr}
    (h : Parser.furtherTypes fuel s = .ok types s') {t : Token} (ht : isType t.kind) :
    ∃ w, DerivesTypes (t :: w) ∧ Takes s w c c s' := by
  induction fuel generalizing s types t with
  | zero =>
      obtain ⟨rfl, rfl⟩ := pure_eq_ok.mp h
      exact ⟨[], .one ht, .refl hs⟩
  | succ fuel ih =>
      rw [Parser.furtherTypes] at h
      obtain ⟨more, s1, hmore, h⟩ := bind_eq_ok.mp h
      rcases Takes.ofAccept (c := c) hs hmore (by simp) with ⟨rfl, comma, hk, hcomma⟩ | ⟨rfl, hcomma⟩
      · obtain ⟨type, s2, htype, h⟩ := bind_eq_ok.mp h
        obtain ⟨rest, s3, hrest, h⟩ := bind_eq_ok.mp h
        obtain ⟨rfl, rfl⟩ := pure_eq_ok.mp h
        obtain ⟨t', ht', htype'⟩ := Takes.typeExpr (c := c) hcomma.lexed htype
        obtain ⟨w, hw, hw'⟩ := ih htype'.lexed hrest ht'
        exact ⟨_, .more ht hk hw, hcomma.trans (htype'.trans hw')⟩
      · obtain ⟨rfl, rfl⟩ := pure_eq_ok.mp h
        exact ⟨[], .one ht, hcomma⟩

theorem Takes.returnTypes (hs : s.Lexed) {isExtern : Bool} {types : List TypeExpr}
    (h : Parser.returnTypes isExtern s = .ok types s') :
    ∃ w, Optional DerivesReturns w ∧ Takes s w c c s' := by
  rw [Parser.returnTypes] at h
  obtain ⟨written, s1, hwritten, h⟩ := bind_eq_ok.mp h
  rcases Takes.ofAccept (c := c) hs hwritten (by simp) with ⟨rfl, colon, hk, hcolon⟩ | ⟨rfl, hcolon⟩
  · obtain ⟨first, s2, hfirst, h⟩ := bind_eq_ok.mp h
    rw [get_bind] at h
    obtain ⟨rest, s3, hrest, h⟩ := bind_eq_ok.mp h
    obtain ⟨rfl, rfl⟩ := pure_eq_ok.mp h
    obtain ⟨t, ht, hfirst'⟩ := Takes.typeExpr (c := c) hcolon.lexed hfirst
    obtain ⟨w, hw, hw'⟩ := Takes.furtherTypes (c := c) hfirst'.lexed hrest ht
    exact ⟨_, .inr (.returns hk hw), hcolon.trans (hfirst'.trans hw')⟩
  · simp only [Bool.false_eq_true, if_false] at h
    rw [current_bind] at h
    split at h
    · rw [locate_bind] at h
      obtain ⟨rfl, rfl⟩ := pure_eq_ok.mp h
      exact ⟨[], .inl rfl, hcolon⟩
    · exact absurd h failExpecting_ne_ok

/-! ## Arguments

What is reported about an argument depends on those before it: their number, and their names. -/

theorem Takes.param (hs : s.Lexed) {before : List Param} {p : Param}
    (h : Parser.param before s = .ok p s') :
    ∃ n colon t, n.kind = .identifier ∧ colon.kind = .mark .colon ∧ isType t.kind ∧
      Takes s [n, colon, t] c (checkParam before p c) s' := by
  rw [Parser.param] at h
  obtain ⟨n, s1, hn, h⟩ := bind_eq_ok.mp h
  obtain ⟨_, s2, hseen, h⟩ := bind_eq_ok.mp h
  obtain ⟨colon, s3, hcolon, h⟩ := bind_eq_ok.mp h
  obtain ⟨type, s4, htype, h⟩ := bind_eq_ok.mp h
  obtain ⟨_, s5, hmany, h⟩ := bind_eq_ok.mp h
  rw [locate_bind] at h
  obtain ⟨rfl, rfl⟩ := pure_eq_ok.mp h
  obtain ⟨hnk, hn⟩ := Takes.ofExpect (c := c) hs hn (by simp)
  have hwidth (ht : n.Legible) : n.width = n.lexeme.length := ht.name hnk
  -- the findings about the name are made later, but at its own place
  have hlocate {u : State} (hu : u.file = s.file) : u.locate n = s.locate n := by
    rw [State.locate, State.locate, hu]
  have hseen := hn.complainIf rfl hseen (hlocate hn.file).symm hwidth
  obtain ⟨hck, hcolon⟩ := Takes.ofExpect hseen.lexed hcolon (by simp)
  obtain ⟨t, ht, htype⟩ := Takes.typeExpr hcolon.lexed htype
  have hread : Takes s [n, colon, t] c _ _ := hseen.trans (hcolon.trans htype)
  have hmany := hread.complainIf rfl hmany (hlocate hread.file).symm hwidth
  refine ⟨n, colon, t, hnk, hck, ht, ?_⟩
  rw [hlocate hmany.file]
  simpa only [checkParam, decide_eq_true_eq] using hmany

theorem Takes.paramsFrom {fuel : Nat} (hs : s.Lexed) (hfuel : s.unread.length < fuel)
    {before params : List Param} (h : Parser.paramsFrom fuel before s = .ok params s') :
    ∃ w new, params = before ++ new ∧ DerivesParams w ∧
      Takes s w c (checkParams before new c) s' := by
  induction fuel generalizing s before c with
  | zero => omega
  | succ fuel ih =>
      rw [Parser.paramsFrom] at h
      obtain ⟨p, s1, hp, h⟩ := bind_eq_ok.mp h
      obtain ⟨more, s2, hmore, h⟩ := bind_eq_ok.mp h
      obtain ⟨n, colon, t, hn, hcolon, ht, hp⟩ := Takes.param (c := c) hs hp
      rcases Takes.ofAccept hp.lexed hmore (by simp) with ⟨rfl, comma, hk, hcomma⟩ | ⟨rfl, hcomma⟩
      · have hread := hp.trans hcomma
        have hlength := congrArg List.length hread.unread
        simp only [List.length_append, List.length_cons] at hlength
        obtain ⟨w, new, rfl, hw, hw'⟩ := ih hread.lexed (by omega) h
        exact ⟨_, p :: new, by simp, .more hn hcolon ht hk hw, hread.trans hw'⟩
      · obtain ⟨rfl, rfl⟩ := pure_eq_ok.mp h
        exact ⟨_, [p], rfl, .one hn hcolon ht, hp.still hcomma⟩

theorem Takes.params (hs : s.Lexed) {params : List Param}
    (h : Parser.params s = .ok params s') :
    ∃ w, Optional DerivesParams w ∧ Takes s w c (checkParams [] params c) s' := by
  rw [Parser.params, get_bind] at h
  split at h
  · obtain ⟨rfl, rfl⟩ := pure_eq_ok.mp h
    exact ⟨[], .inl rfl, .refl hs⟩
  · obtain ⟨w, new, rfl, hw, hw'⟩ := Takes.paramsFrom (c := c) hs (Nat.lt_succ_self _) h
    exact ⟨w, .inr hw, hw'⟩

/-! ## Heads

The name of a function is declared before its arguments are read, so a function can be redefined even
if its own head fails. The checker goes in the same order. -/

theorem Takes.declare {w : List Token} {s₀ : State} {c₀ : Checker} {t : Token}
    (h : Takes s₀ (t :: w) c₀ c s) (hk : t.kind = .identifier) {symbol : Symbol} {x : Unit}
    (hname : symbol.name = t.lexeme) (hloc : symbol.loc = s.locate t)
    (hp : Parser.declare symbol t s = .ok x s') :
    Takes s₀ (t :: w) c₀ (c.declare symbol) s' := by
  refine h.goOn ((Regular.declare symbol t).ok hp) ?_ fun hc₀ hc => ?_
  · rw [Parser.declare, update_eq_ok] at hp
    subst hp
    split
    · rfl
    · exact State.report_unread ..
  · exact hc.declare hloc (by rw [hname]; exact (h.legible hc₀).name hk) hp

theorem Takes.declareFunction {s₀ : State} {c₀ : Checker} {n : Token}
    (h : Takes s₀ [n] c₀ c s) (hk : n.kind = .identifier) {isExtern : Bool} {x : Unit}
    (hp : Parser.declareFunction n isExtern s = .ok x s') :
    Takes s₀ [n] c₀ (c.declare ⟨n.lexeme, .function, .constant, true, s.locate n⟩) s' := by
  rw [Parser.declareFunction, update_bind, locate_bind] at hp
  dsimp only at hp
  split at hp
  · have hset : Takes s₀ [n] c₀ c { s with entryPoint := true } :=
      h.goOn (.of_change (.setEntryPoint s true)) rfl
        fun _ hc => ⟨hc.loud, hc.legible, hc.single, hc.valid, hc.frames, hc.inFunction, hc.findings⟩
    exact hset.declare hk rfl rfl hp
  · exact h.declare hk rfl rfl hp

theorem Takes.prototype (hs : s.Lexed) (hk : s.current.kind ≠ .endOfFile) {isExtern : Bool}
    {p : Prototype} (h : Parser.prototype isExtern s = .ok p s') :
    ∃ w, DerivesHead w ∧ Takes s (s.current :: w) c (p.check c) s' := by
  rw [Parser.prototype, take_bind] at h
  obtain ⟨n, s1, hn, h⟩ := bind_eq_ok.mp h
  obtain ⟨_, s2, hdeclare, h⟩ := bind_eq_ok.mp h
  obtain ⟨l, s3, hl, h⟩ := bind_eq_ok.mp h
  obtain ⟨params, s4, hparams, h⟩ := bind_eq_ok.mp h
  obtain ⟨r, s5, hr, h⟩ := bind_eq_ok.mp h
  obtain ⟨returns, s6, hreturns, h⟩ := bind_eq_ok.mp h
  rw [locate_bind] at h
  obtain ⟨rfl, rfl⟩ := pure_eq_ok.mp h
  have hkeyword := Takes.ofAdvance (c := c) hs hk
  obtain ⟨hnk, hn⟩ := Takes.ofExpect (c := c) hkeyword.lexed hn (by simp)
  have hdeclare := hn.declareFunction hnk hdeclare
  -- the name of the function is declared before its arguments are read
  generalize hc' : c.declare ⟨n.lexeme, .function, .constant, true, s1.locate n⟩ = c' at hdeclare
  obtain ⟨hlk, hl⟩ := Takes.ofExpect (c := c') hdeclare.lexed hl (by simp)
  obtain ⟨v, hv, hparams⟩ := Takes.params (c := c') hl.lexed hparams
  obtain ⟨hrk, hr⟩ := Takes.ofExpect (c := checkParams [] params c') hparams.lexed hr (by simp)
  obtain ⟨w, hw, hreturns⟩ := Takes.returnTypes (c := checkParams [] params c') hr.lexed hreturns
  have hbehind := hl.trans (hparams.trans (hr.trans hreturns))
  refine ⟨_, .head hnk hlk hv hrk hw, ?_⟩
  have hloc : s'.locate n = s1.locate n := by
    rw [State.locate, State.locate, hbehind.file, hdeclare.file, hn.file]
  rw [Prototype.check, hloc, hc']
  exact hkeyword.trans (hdeclare.trans hbehind)

end FrontEnd.Grammar
