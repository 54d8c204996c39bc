import Mathlib.Data.List.Chain
import Rosette.Proofs.Pattern.Spelling

/-!
# Which tokens stand side by side

Tokens that derive a pattern keep to rules that only two neighbours have to do with: a sequence is not empty, no comma
stands where an argument has to, and a number stands behind a colon. So does what begins and what ends them
(`Derives.linked`). Where two tokens of a text break such a rule, it is no pattern, whatever else it has.
-/

namespace Rosette.Pattern

/-- Whether a token of one kind may have one of another right behind it. -/
def mayFollow : Token.Kind → Token.Kind → Bool
  | .dollar, k => k = .symbol || k = .identifier
  | .lparen, k | .comma, k => k ≠ .comma
  | .colon, k => k = .number
  | _, _ => true

/-- Whether the tokens of a nonterminal may begin with one of a kind. -/
def Nonterminal.mayBegin : Nonterminal → Token.Kind → Bool
  | .symbol, k | .member, k | .members, k | .command, k => k = .symbol || k = .identifier
  | _, k => k ≠ .comma && k ≠ .colon

/-- Whether the tokens of a nonterminal may end with one of a kind. Arguments may end with a comma. -/
def Nonterminal.mayEnd : Nonterminal → Token.Kind → Bool
  | .arguments, k => k ≠ .dollar && k ≠ .lparen && k ≠ .colon
  | _, k => k ≠ .dollar && k ≠ .lparen && k ≠ .colon && k ≠ .comma

/-- Whether neighbours among some tokens may stand side by side. -/
def Chained (ts : List Token) : Prop := ts.IsChain fun t u => mayFollow t.kind u.kind = true

variable {n m : Nonterminal} {ts us : List Token} {t u : Token} {ps : List Pattern}

theorem chained_append :
    Chained (ts ++ us) ↔ Chained ts ∧ Chained us ∧
      ∀ t ∈ ts.getLast?, ∀ u ∈ us.head?, mayFollow t.kind u.kind = true := List.isChain_append

theorem chained_cons : Chained (t :: ts) ↔ (∀ u ∈ ts.head?, mayFollow t.kind u.kind = true) ∧ Chained ts :=
  List.isChain_cons

theorem chained_nil : Chained [] := .nil

theorem chained_singleton (t : Token) : Chained [t] := .singleton t

/-- What the tokens of a nonterminal are like, as far as neighbours go. -/
structure Linked (n : Nonterminal) (ts : List Token) : Prop where
  chained : Chained ts
  begins : ∀ t ∈ ts.head?, n.mayBegin t.kind = true
  ends : ∀ t ∈ ts.getLast?, n.mayEnd t.kind = true

theorem Linked.imp (h : Linked n ts) (hbegin : ∀ k, n.mayBegin k = true → m.mayBegin k = true)
    (hend : ∀ k, n.mayEnd k = true → m.mayEnd k = true) : Linked m ts :=
  ⟨h.chained, fun t ht => hbegin _ (h.begins t ht), fun t ht => hend _ (h.ends t ht)⟩

/-- A complete part has nothing to say about what follows it, but that arguments may end with a comma. -/
theorem mayFollow_of_mayEnd {k k' : Token.Kind} (h : n.mayEnd k = true) (hn : n = .arguments → k' ≠ .comma) :
    mayFollow k k' = true := by
  cases n <;> cases k <;> simp_all [Nonterminal.mayEnd, mayFollow]

/-- No comma stands where an argument or the end of a call has to. -/
theorem mayFollow_of_mayBegin {k k' : Token.Kind} (h : Nonterminal.arguments.mayBegin k' = true)
    (hk : k = .lparen ∨ k = .comma) : mayFollow k k' = true := by
  simp only [Nonterminal.mayBegin, Bool.and_eq_true] at h
  obtain rfl | rfl := hk
  · exact h.1
  · exact h.1

theorem linked_singleton (hbegin : n.mayBegin t.kind = true) (hend : n.mayEnd t.kind = true) : Linked n [t] :=
  ⟨chained_singleton t, by simpa using hbegin, by simpa using hend⟩

theorem mem_head?_append (h : t ∈ (ts ++ us).head?) : t ∈ ts.head? ∨ t ∈ us.head? := by
  cases ts with
  | nil => exact .inr h
  | cons => exact .inl h

theorem mem_getLast?_append (h : t ∈ (ts ++ us).getLast?) : t ∈ us.getLast? ∨ t ∈ ts.getLast? := by
  rw [List.getLast?_append] at h
  cases hl : us.getLast? with
  | none => exact .inr (by simpa [hl] using h)
  | some u => exact .inl (by simpa [hl] using h)

/-- A token in front of a part that is not empty. -/
theorem Linked.cons (h : Linked n ts) (hne : ts ≠ []) (hbegin : m.mayBegin t.kind = true)
    (hfollow : ∀ k, n.mayBegin k = true → mayFollow t.kind k = true)
    (hend : ∀ k, n.mayEnd k = true → m.mayEnd k = true) : Linked m (t :: ts) := by
  refine ⟨chained_cons.2 ⟨fun u hu => hfollow _ (h.begins u hu), h.chained⟩, by simpa using hbegin, fun u hu => ?_⟩
  obtain ⟨v, us, rfl⟩ := List.exists_cons_of_ne_nil hne
  exact hend _ (h.ends u hu)

/-- Two parts one behind the other, where the first is not one of arguments. -/
theorem Linked.append {j : Nonterminal} (h : Linked n ts) (h' : Linked m us) (hn : n ≠ .arguments)
    (hbegin : ∀ t ∈ (ts ++ us).head?, j.mayBegin t.kind = true)
    (hend : ∀ t ∈ (ts ++ us).getLast?, j.mayEnd t.kind = true) : Linked j (ts ++ us) :=
  have hseam : ∀ t ∈ ts.getLast?, ∀ u ∈ us.head?, mayFollow t.kind u.kind = true :=
    fun t ht _ _ => mayFollow_of_mayEnd (h.ends t ht) (absurd · hn)
  ⟨chained_append.2 ⟨h.chained, h'.chained, hseam⟩, hbegin, hend⟩

theorem Linked.members (h : Linked .member ts) (h' : Linked .members us) : Linked .members (ts ++ us) := by
  refine h.append h' (by simp) (fun t ht => ?_) (fun t ht => ?_)
  · obtain ht | ht := mem_head?_append ht
    · exact h.begins t ht
    · exact h'.begins t ht
  · obtain ht | ht := mem_getLast?_append ht
    · exact h'.ends t ht
    · exact h.ends t ht

/-- **Tokens that derive a pattern may stand side by side.** -/
theorem Derives.linked (h : Derives n ts ps) : Linked n ts := by
  induction h with
  | symbol kind | argumentNumber kind => exact linked_singleton (by rw [kind]; rfl) (by rw [kind]; rfl)
  | noMembers | noArguments => exact ⟨chained_nil, by simp, by simp⟩
  | memberSymbol _ ih | memberCommand _ ih | argumentSequence _ ih | argumentCommand _ ih | argumentSymbol _ ih
  | lastArgument _ ih | patternSequence _ ih | patternCommand _ ih | patternSymbol _ ih | plain _ ih =>
    refine ih.imp (fun k => ?_) (fun k => ?_)
    · cases k <;> simp [Nonterminal.mayBegin]
    · cases k <;> simp [Nonterminal.mayEnd]
  | moreMembers _ _ ih ihs => exact ih.members ihs
  | sequence kind d _ ih ihs =>
    refine (ih.members ihs).cons (List.append_ne_nil_of_left_ne_nil (d.ne_nil (by simp) (by simp)) _) ?_ (fun k => ?_)
      (fun k => ?_)
    · rw [kind]
      rfl
    · rw [kind]
      exact id
    · exact id
  | @command name opening closing ts _ kind opens closes _ ih =>
    have hclosed : Chained (ts ++ [closing]) := chained_append.2 ⟨ih.chained, chained_singleton _, fun t ht u hu =>
      mayFollow_of_mayEnd (ih.ends t ht) (by simp_all)⟩
    refine ⟨chained_cons.2 ⟨?_, chained_cons.2 ⟨fun u hu => ?_, hclosed⟩⟩, by simp [kind, Nonterminal.mayBegin],
      by simp [List.getLast?_cons, closes, Nonterminal.mayEnd]⟩
    · simp [kind, mayFollow]
    · rw [opens]
      obtain hu | hu := mem_head?_append hu
      · exact mayFollow_of_mayBegin (ih.begins u hu) (.inl rfl)
      · cases hu
        rw [closes]
        rfl
  | @moreArguments comma ts us _ _ d kind _ ih ihs =>
    have hcomma : Chained (comma :: us) := chained_cons.2
      ⟨fun u hu => mayFollow_of_mayBegin (ihs.begins u hu) (.inr kind), ihs.chained⟩
    refine ⟨chained_append.2 ⟨ih.chained, hcomma, fun t ht u _ => mayFollow_of_mayEnd (ih.ends t ht) (by simp)⟩,
      fun t ht => ?_, fun t ht => ?_⟩
    · obtain ⟨v, vs, rfl⟩ := List.exists_cons_of_ne_nil (d.ne_nil (by simp) (by simp))
      exact ih.begins t ht
    · rw [List.getLast?_append_cons, List.getLast?_cons, Option.mem_some_iff] at ht
      subst ht
      cases hlast : us.getLast? with
      | none => simp [kind, Nonterminal.mayEnd]
      | some u => exact ihs.ends u hlast
  | @argumentReference mark name kind named =>
    refine ⟨chained_cons.2 ⟨by simp [kind, mayFollow], chained_singleton _⟩, by simp [kind, Nonterminal.mayBegin], ?_⟩
    obtain hk | hk := named <;> simp [hk, Nonterminal.mayEnd]
  | @counted colon number ts _ _ d mark kind _ ih =>
    have hcount : Chained [colon, number] := chained_cons.2 ⟨by simp [mark, kind, mayFollow], chained_singleton _⟩
    refine ⟨chained_append.2 ⟨ih.chained, hcount, fun t ht u _ => mayFollow_of_mayEnd (ih.ends t ht) (by simp)⟩,
      fun t ht => ?_, by simp [kind, Nonterminal.mayEnd]⟩
    obtain ⟨v, vs, rfl⟩ := List.exists_cons_of_ne_nil (d.ne_nil (by simp) (by simp))
    exact ih.begins t ht

end Rosette.Pattern
