import TopDown.Proofs.Derivation.Word
import TopDown.Proofs.Grammar.Program

/-!
# Declared names

Which names a program declares shows in its tokens alone: they are the identifiers that come
directly after `var`. A run adds those of its tokens to the scope, in order, up to the one that a
second declaration rejects.
-/

namespace TopDown

namespace Token

/-- The kind of the last token, or `previous` if there is none. -/
def lastKind (previous : Kind) : List Token → Kind
  | [] => previous
  | t :: rest => lastKind t.kind rest

/-- The identifiers that come directly after `var`; before the tokens there was one of the kind
`previous`. -/
def declaredAfter (previous : Kind) : List Token → List Token
  | [] => []
  | t :: rest =>
    if previous = .kwVar ∧ t.kind = .identifier then t :: declaredAfter t.kind rest
    else declaredAfter t.kind rest

/-- The identifiers that come directly after `var`. -/
def declared (tokens : List Token) : List Token :=
  declaredAfter .endOfInput tokens

theorem lastKind_append (previous : Kind) (ts us : List Token) :
    lastKind previous (ts ++ us) = lastKind (lastKind previous ts) us := by
  induction ts generalizing previous with
  | nil => rfl
  | cons t ts ih => exact ih t.kind

theorem declaredAfter_append (previous : Kind) (ts us : List Token) :
    declaredAfter previous (ts ++ us) =
      declaredAfter previous ts ++ declaredAfter (lastKind previous ts) us := by
  induction ts generalizing previous with
  | nil => rfl
  | cons t ts ih =>
    simp only [List.cons_append, declaredAfter, lastKind, ih]
    split <;> simp

theorem declared_append (ts us : List Token) :
    declared (ts ++ us) = declared ts ++ declaredAfter (lastKind .endOfInput ts) us :=
  declaredAfter_append .endOfInput ts us

/-- Which tokens are declared depends on their kinds alone. -/
theorem declaredAfter_map {f : Token → Token} (hf : ∀ t, (f t).kind = t.kind)
    (previous : Kind) (ts : List Token) :
    declaredAfter previous (ts.map f) = (declaredAfter previous ts).map f := by
  induction ts generalizing previous with
  | nil => rfl
  | cons t ts ih =>
    rw [List.map_cons, declaredAfter, declaredAfter, hf, ih]
    split <;> rfl

/-- Of the kind before the tokens it matters only whether it is `var`. -/
theorem declaredAfter_congr {previous previous' : Kind}
    (h : previous = .kwVar ↔ previous' = .kwVar) (ts : List Token) :
    declaredAfter previous ts = declaredAfter previous' ts := by
  cases ts with
  | nil => rfl
  | cons t ts => simp only [declaredAfter, h]

/-- After tokens that do not end in `var` the same tokens are declared as alone. -/
theorem declared_append_of_lastKind {ts : List Token} (us : List Token)
    (h : lastKind .endOfInput ts ≠ .kwVar) :
    declared (ts ++ us) = declared ts ++ declared us := by
  have hsame : lastKind .endOfInput ts = .kwVar ↔ Kind.endOfInput = .kwVar :=
    iff_of_false h (by decide)
  rw [declared_append, declaredAfter_congr hsame]
  rfl

end Token

namespace Scope

theorem tokens_of_declare_eq_ok {s s' : Scope} {t : Token} (h : s.declare t = .ok s') :
    s'.tokens = s.tokens ++ [t] := by
  unfold declare at h
  split at h
  · cases h
  · obtain rfl := Except.ok.inj h
    rfl

theorem of_declare_eq_error {s : Scope} {t : Token} {r : Redeclaration}
    (h : s.declare t = .error r) : r.again = t ∧ s.lookup t.lexeme = some r.first := by
  unfold declare at h
  split at h
  · next hfound =>
    obtain rfl := Except.error.inj h
    exact ⟨rfl, hfound⟩
  · cases h

end Scope

/-- The tokens that a fault rejects: the one that declares a name again. -/
def Fault.rejected : Fault → List Token
  | redeclared r => [r.again]
  | _ => []

namespace Language

/-- A name that is declared again is in the scope. -/
theorem Runs.lookup_redeclared {N : Type} [DecidableEq N] {l : Language N} {host : N}
    {symbols : List (Symbol N)} {s s' : State} {ds : List (Derivation N)} {ts : List Token}
    {fault : Option Fault} (h : l.Runs host symbols s ds ts s' fault) {r : Redeclaration}
    (hfault : fault = some (.redeclared r)) : s'.scope.lookup r.again.lexeme = some r.first := by
  induction h with
  | nil => cases hfault
  | ended _ _ ih => exact ih hfault
  | matched _ _ _ _ ih => exact ih hfault
  | @redeclared _ _ _ s t _ _ _ _ henter =>
    cases hfault
    unfold enter at henter
    split at henter
    · obtain ⟨hagain, hfirst⟩ := Scope.of_declare_eq_error henter
      rw [hagain]
      exact hfirst
    · cases henter
  | mismatched => cases hfault
  | refused => cases hfault
  | vanished _ _ ih => exact ih hfault
  | called _ _ _ _ _ ih => exact ih hfault
  | broken _ _ _ ih => exact ih hfault

theorem Runs.first_mem_scope {N : Type} [DecidableEq N] {l : Language N} {host : N}
    {symbols : List (Symbol N)} {s s' : State} {ds : List (Derivation N)} {ts : List Token}
    {fault : Option Fault} (h : l.Runs host symbols s ds ts s' fault) {r : Redeclaration}
    (hfault : fault = some (.redeclared r)) :
    r.first ∈ s'.scope.tokens ∧ r.first.lexeme = r.again.lexeme := by
  have hfound := h.lookup_redeclared hfault
  exact ⟨List.mem_of_find?_eq_some hfound, by simpa using List.find?_some hfound⟩

variable {host : Nonterminal} {symbols : List (Symbol Nonterminal)} {s s' : State}
  {ds : List (Derivation Nonterminal)} {ts : List Token} {fault : Option Fault} {previous : Kind}

/-- What a matched token declares. -/
theorem enter_programLanguage {t : Token} {scope : Scope} :
    programLanguage.enter host t scope =
      if host = .varDecl ∧ t.kind = .identifier then scope.declare t else .ok scope := by
  simp [enter, programLanguage]

/-- The terminal that declares a name is the one that a name is due at. -/
theorem declares_iff {kind : Kind} {rest : List (Symbol Nonterminal)}
    (hhost : programGrammar.Ends host (.terminal kind :: rest))
    (hprevious : previous = .kwVar ↔ NameDue host (.terminal kind :: rest)) :
    (host = .varDecl ∧ kind = .identifier) ↔ (previous = .kwVar ∧ kind = .identifier) := by
  constructor
  · intro hdeclares
    obtain ⟨rfl, rfl⟩ := hdeclares
    exact ⟨hprevious.mpr (nameDue_of_declares hhost rfl).1, rfl⟩
  · intro hdue
    obtain ⟨hvar, rfl⟩ := hdue
    exact ⟨(hprevious.mp hvar).1, rfl⟩

/-- With `var` before exactly if a name is due, a run declares what its tokens say, and ends at no
place where a name is due. -/
theorem Runs.declares (h : programLanguage.Runs host symbols s ds ts s' fault)
    (hhost : programGrammar.Ends host symbols)
    (hprevious : previous = .kwVar ↔ NameDue host symbols) :
    s'.scope.tokens ++ fault.elim [] Fault.rejected =
        s.scope.tokens ++ Token.declaredAfter previous ts ∧
      (fault = none → Token.lastKind previous ts ≠ .kwVar) := by
  induction h generalizing previous with
  | nil =>
    have hnot : previous ≠ .kwVar := fun hvar => by simpa [NameDue] using hprevious.mp hvar
    exact ⟨rfl, fun _ => hnot⟩
  | ended _ _ ih | vanished _ _ ih =>
    have hnot : previous ≠ .kwVar := fun hvar => by simpa [NameDue] using hprevious.mp hvar
    exact ih hhost.tail (by simp [nameDue_iff hhost, hnot])
  | @matched host kind rest s s' t left scope ds ts fault hs hkind henter hrest ih =>
    subst hkind
    have hnext : t.kind = .kwVar ↔ NameDue host rest := by simp [nameDue_iff hhost]
    obtain ⟨hscope, hlast⟩ := ih hhost.tail hnext
    refine ⟨?_, hlast⟩
    rw [enter_programLanguage] at henter
    rw [hscope, Token.declaredAfter]
    simp only [declares_iff hhost hprevious] at henter
    split at henter
    · next hdeclares =>
      rw [if_pos hdeclares]
      simp [Scope.tokens_of_declare_eq_ok henter]
    · next hdeclares =>
      rw [if_neg hdeclares]
      obtain rfl := Except.ok.inj henter
      rfl
  | @redeclared host kind rest s t left r hs hkind henter =>
    subst hkind
    refine ⟨?_, by simp⟩
    rw [enter_programLanguage] at henter
    simp only [declares_iff hhost hprevious] at henter
    split at henter
    · next hdeclares =>
      simp [Token.declaredAfter, hdeclares, Fault.rejected, (Scope.of_declare_eq_error henter).1]
    · cases henter
  | mismatched => simp [Token.declaredAfter, Fault.rejected]
  | refused => simp [Token.declaredAfter, Fault.rejected]
  | @called host n alt rest s s₁ s' ds es ts us fault hchoose _ _ _ ihc ihr =>
    have hnot : previous ≠ .kwVar := fun hvar => by simpa [NameDue] using hprevious.mp hvar
    have halt := mem_alternatives_of_choose? hchoose
    obtain ⟨hscopec, hlastc⟩ := ihc (Grammar.ends_of_mem halt)
      (iff_of_false hnot (not_nameDue_of_mem halt))
    have hlast := hlastc rfl
    have hnext : Token.lastKind previous ts = .kwVar ↔ NameDue host rest := by
      simp [nameDue_iff hhost, hlast]
    obtain ⟨hscoper, hlastr⟩ := ihr hhost.tail hnext
    rw [Option.elim_none, List.append_nil] at hscopec
    rw [hscoper, hscopec, Token.declaredAfter_append, Token.lastKind_append, List.append_assoc]
    exact ⟨rfl, hlastr⟩
  | broken hchoose _ _ ih =>
    have hnot : previous ≠ .kwVar := fun hvar => by simpa [NameDue] using hprevious.mp hvar
    have halt := mem_alternatives_of_choose? hchoose
    exact ih (Grammar.ends_of_mem halt) (iff_of_false hnot (not_nameDue_of_mem halt))

/-- The name that is declared again is the last token that the run consumes, and a name is due
there. -/
theorem Runs.of_redeclared (h : programLanguage.Runs host symbols s ds ts s' fault)
    (hhost : programGrammar.Ends host symbols)
    (hprevious : previous = .kwVar ↔ NameDue host symbols) {r : Redeclaration}
    (hfault : fault = some (.redeclared r)) :
    ∃ front, ts = front ++ [r.again] ∧ Token.lastKind previous front = .kwVar ∧
      r.again.kind = .identifier := by
  induction h generalizing previous with
  | nil => cases hfault
  | ended _ _ ih | vanished _ _ ih =>
    have hnot : previous ≠ .kwVar := fun hvar => by simpa [NameDue] using hprevious.mp hvar
    exact ih hhost.tail (by simp [nameDue_iff hhost, hnot]) hfault
  | @matched host kind rest s s' t left scope ds ts fault hs hkind henter hrest ih =>
    subst hkind
    have hnext : t.kind = .kwVar ↔ NameDue host rest := by simp [nameDue_iff hhost]
    obtain ⟨front, rfl, hdue⟩ := ih hhost.tail hnext hfault
    exact ⟨t :: front, rfl, hdue⟩
  | @redeclared host kind rest s t left r' hs hkind henter =>
    subst hkind
    cases hfault
    rw [enter_programLanguage] at henter
    simp only [declares_iff hhost hprevious] at henter
    split at henter
    · next hdue =>
      obtain rfl := (Scope.of_declare_eq_error henter).1
      exact ⟨[], rfl, hdue⟩
    · cases henter
  | mismatched => cases hfault
  | refused => cases hfault
  | @called host n alt rest s s₁ s' ds es ts us fault hchoose _ hcall _ _ ihr =>
    have hnot : previous ≠ .kwVar := fun hvar => by simpa [NameDue] using hprevious.mp hvar
    have halt := mem_alternatives_of_choose? hchoose
    have hlast := (hcall.declares (Grammar.ends_of_mem halt)
      (iff_of_false hnot (not_nameDue_of_mem halt))).2 rfl
    have hnext : Token.lastKind previous ts = .kwVar ↔ NameDue host rest := by
      simp [nameDue_iff hhost, hlast]
    obtain ⟨front, rfl, hdue⟩ := ihr hhost.tail hnext hfault
    exact ⟨ts ++ front, (List.append_assoc ts front _).symm, by rwa [Token.lastKind_append]⟩
  | broken hchoose _ _ ih =>
    have hnot : previous ≠ .kwVar := fun hvar => by simpa [NameDue] using hprevious.mp hvar
    have halt := mem_alternatives_of_choose? hchoose
    exact ih (Grammar.ends_of_mem halt) (iff_of_false hnot (not_nameDue_of_mem halt)) hfault

end Language

end TopDown
