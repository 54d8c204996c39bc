import Rosette.Proofs.Pattern.RepeatCount
import Rosette.Proofs.Pattern.SolidMark

/-!
# Counts that are too long for a text

A pattern put together by hand may have a count of more digits than a text may show, and then it has no text. This is
all that keeps a meaningful pattern from having one: the writer looks at every count, so what it writes is regular
(`MeaningfulRoot.written`).
-/

namespace Rosette

theorem Count.IsFrom.isAtLeast {least : Nat} {n : Count} (h : n.IsFrom least) (hn : n.IsWritten) :
    n.IsAtLeast least := by
  obtain rfl | ⟨k, rfl, hk⟩ := h
  · exact .inl rfl
  · obtain hn | ⟨j, hj, hfits⟩ := hn
    · cases hn
    · cases hj
      exact .inr ⟨k, rfl, hk, hfits⟩

theorem Count.IsFrom.mono {least least' : Nat} {n : Count} (h : n.IsFrom least) (hle : least' ≤ least) :
    n.IsFrom least' := by
  obtain rfl | ⟨k, rfl, hk⟩ := h
  · exact .inl rfl
  · exact .inr ⟨k, rfl, hle.trans hk⟩

namespace Pattern

open Writing

variable {p : Pattern} {ps args : List Pattern} {n : Count} {name : String}

/-- A meaningful pattern, with an element count if it has one. -/
def MeaningfulRoot (p : Pattern) : Prop :=
  Meaningful p ∨ ∃ (q : Pattern) (k : Nat), p = .elementCount q (.times k) ∧ Meaningful q

theorem Meaningful.notated (h : Meaningful p) : Notated p := by
  induction h with
  | symbol hchar hn => exact .symbol (.inl hchar) hn
  | sequence _ _ hn ih => exact .sequence ih (hn.mono (Nat.zero_le 1))
  | mirrored _ ih => exact .command (by decide) (by simpa using ih) (.inl rfl)
  | counted hrule _ _ hchar hn ih =>
    refine .command (by rcases hrule with rfl | rfl <;> decide) (fun p hp => ?_) (.inl rfl)
    rcases List.mem_append.1 hp with hp | hp
    · exact ih p hp
    · rw [List.mem_singleton.1 hp]
      exact .symbol (.inl hchar) (hn.mono (Nat.zero_le 1))

theorem Regular.meaningful (h : Regular p) : Meaningful p := by
  induction h with
  | symbol hchar hn => exact .symbol hchar hn.isFrom
  | sequence ne _ hn ih => exact .sequence ne ih hn.isFrom
  | mirrored _ ih => exact .mirrored ih
  | counted hrule ne _ hchar hn ih => exact .counted hrule ne ih hchar hn.isFrom

/-- A pattern is regular if it has a text in some place. -/
structure RegularWritten (p : Pattern) : Prop where
  alone : Writes (topText p) (fun _ => Regular p)
  member : Writes (memberText p) (fun _ => Regular p)
  argument : Writes (argumentText p) (fun _ => Regular p)

/-- The count behind a letter, or the bare number in its place, is not too long. -/
theorem argumentText_symbol {char : String} {rotated : Bool} (hchar : char ∈ Stroke.alphabet) (hn : n.IsFrom 0) :
    Writes (argumentText (.symbol char rotated n)) (fun _ => n.IsWritten) := by
  rw [argumentText]
  split
  · rename_i hx
    simp only [Bool.and_eq_true, Bool.not_eq_true'] at hx
    refine (countText_judged hn hx.2).imp fun cs hcs => ?_
    obtain ⟨k, rfl, hk, -⟩ := hcs
    exact .inr ⟨k, rfl, hk⟩
  · exact (symbolText_judged hchar hn).imp fun cs hcs => hcs.1

theorem regularWritten_symbol {char : String} {rotated : Bool} (hchar : char ∈ Stroke.alphabet) (hn : n.IsFrom 0) :
    RegularWritten (.symbol char rotated n) := by
  have htext : Writes (symbolText char rotated n) (fun _ => Regular (.symbol char rotated n)) :=
    (symbolText_judged hchar hn).imp fun cs hcs => .symbol hchar (hn.isAtLeast hcs.1)
  exact ⟨by rwa [topText], by rwa [memberText],
    (argumentText_symbol hchar hn).imp fun cs hcs => .symbol hchar (hn.isAtLeast hcs)⟩

theorem repeatedText_isWritten (hn : n.IsFrom 0) (inner : List Char) :
    Writes (repeatedText n inner) (fun _ => n.IsWritten) := by
  unfold repeatedText
  split
  · rename_i habs
    exact .inl (Count.eq_absent habs)
  · rename_i habs
    refine (countText_judged hn (Bool.not_eq_true _ ▸ habs)).bind fun t ht => ?_
    obtain ⟨k, rfl, hk, -⟩ := ht
    exact .inr ⟨k, rfl, hk⟩

theorem bodyText_regular (each : ∀ p ∈ ps, Meaningful p) (h : ∀ p ∈ ps, RegularWritten p) (before : List Char) :
    Writes (bodyText before ps) (fun _ => ∀ p ∈ ps, Regular p) := by
  induction ps generalizing before with
  | nil => exact List.forall_mem_nil _
  | cons p ps ih =>
    rw [List.forall_mem_cons] at each h
    rw [bodyText]
    refine h.1.member.bind fun t hp => ?_
    have hbehind : behind before p t = .ok (glue before t) := by rw [behind, each.1.notated.bare?_eq_none]
    rw [hbehind]
    exact (ih each.2 h.2 _).imp fun _ hps => List.forall_mem_cons.2 ⟨hp, hps⟩

theorem argumentTexts_regular (h : ∀ p ∈ ps, RegularWritten p) :
    Writes (argumentTexts ps) (fun _ => ∀ p ∈ ps, Regular p) := by
  induction ps with
  | nil => exact List.forall_mem_nil _
  | cons p ps ih =>
    rw [List.forall_mem_cons] at h
    rw [argumentTexts]
    exact h.1.argument.bind fun t hp => (ih h.2).bind fun ts hps => List.forall_mem_cons.2 ⟨hp, hps⟩

theorem Meaningful.regular_letter (h : Meaningful p) (hl : p.IsWrittenLetter) : Regular p := by
  obtain ⟨char, rotated, n, rfl, -, hn⟩ := hl
  cases h with
  | symbol hchar hfrom => exact .symbol hchar (hfrom.isAtLeast hn)

theorem regularWritten_sequence (ne : ps ≠ []) (each : ∀ p ∈ ps, Meaningful p) (hn : n.IsFrom 1)
    (h : ∀ p ∈ ps, RegularWritten p) : RegularWritten (.sequence ps n) := by
  by_cases hw : (n.isAbsent && isWord ps) = true
  · have htext : Writes (wordText ps) (fun _ => Regular (.sequence ps n)) := by
      rw [Bool.and_eq_true] at hw
      obtain rfl := Count.eq_absent hw.1
      refine (wordText_written (fun p hp => (each p hp).notated) (letters_of_isWord hw.2).2).imp fun _ hps => ?_
      exact .sequence ne (fun p hp => (each p hp).regular_letter (hps p hp)) (.inl rfl)
    exact ⟨by rwa [topText, if_pos hw], by rwa [memberText, if_pos hw], by rwa [argumentText, if_pos hw]⟩
  · have hbody := bodyText_regular each h []
    have hcounted : ∀ body, (∀ p ∈ ps, Regular p) →
        Writes (sequenceText body >>= repeatedText n) (fun _ => Regular (.sequence ps n)) := by
      intro body hps
      unfold sequenceText
      split
      · rfl
      · exact (repeatedText_isWritten (hn.mono (Nat.zero_le 1)) _).imp fun _ hwritten =>
          .sequence ne hps (hn.isAtLeast hwritten)
    refine ⟨?_, ?_, ?_⟩
    · rw [topText, if_neg hw]
      exact hbody.bind hcounted
    · rw [memberText, if_neg hw]
      refine hbody.bind fun body hps => ?_
      split
      · rename_i habs
        exact .sequence ne hps (.inl (Count.eq_absent habs))
      · exact hcounted body hps
    · rw [argumentText, if_neg hw]
      exact hbody.bind hcounted

/-- A call is regular if it is once its arguments are. -/
theorem regularWritten_command (hbare : ∀ p ∈ args, bare? p = none) (h : ∀ p ∈ args, RegularWritten p)
    (hcall : (∀ p ∈ args, Regular p) → Regular (.command name args .absent)) :
    RegularWritten (.command name args .absent) := by
  have htext : Writes (argumentTexts args >>= fun parts => callText name args parts >>= repeatedText .absent)
      (fun _ => Regular (.command name args .absent)) := by
    refine (argumentTexts_regular h).bind fun parts hargs => ?_
    rw [callText, argumentMisfit?_eq_none hbare]
    exact hcall hargs
  exact ⟨by rwa [topText], by rwa [memberText], by rwa [argumentText]⟩

/-- **What has a text is regular**, in each place of a meaningful pattern. -/
theorem Meaningful.regularWritten (h : Meaningful p) : RegularWritten p := by
  induction h with
  | symbol hchar hn => exact regularWritten_symbol hchar hn
  | sequence ne each hn ih => exact regularWritten_sequence ne each hn ih
  | mirrored h ih =>
    refine regularWritten_command (by simpa using h.notated.bare?_eq_none) (by simpa using ih) fun hargs => ?_
    exact .mirrored (hargs _ List.mem_cons_self)
  | @counted rule ps char rotated n hrule ne each hchar hn ih =>
    have hlast : RegularWritten (.symbol char rotated n) := regularWritten_symbol hchar (hn.mono (Nat.zero_le 1))
    refine regularWritten_command ?_ ?_ fun hargs => ?_
    · rw [List.forall_mem_append]
      exact ⟨fun p hp => (each p hp).notated.bare?_eq_none, by simp [bare?]⟩
    · rw [List.forall_mem_append]
      exact ⟨ih, by simpa using hlast⟩
    · rw [List.forall_mem_append] at hargs
      have hcount : n.IsWritten := by
        have hregular := hargs.2 _ List.mem_cons_self
        cases hregular with
        | symbol _ hcount => exact hcount.isWritten
      exact .counted hrule ne hargs.1 hchar (hn.isAtLeast hcount)

theorem MeaningfulRoot.text_written (h : MeaningfulRoot p) : Writes (text p) (fun _ => RegularRoot p) := by
  obtain h | ⟨q, k, rfl, h⟩ := h
  · have htop : text p = topText p := by cases h <;> rfl
    rw [htop]
    exact h.regularWritten.alone.imp fun _ hp => .inl hp
  · rw [text]
    refine h.regularWritten.alone.bind fun t hq => ?_
    refine (countText_judged (.inr ⟨k, rfl, Nat.zero_le k⟩) rfl).bind fun ds hds => ?_
    obtain ⟨j, hj, hfits, -⟩ := hds
    cases hj
    exact .inr ⟨q, k, rfl, hq, hfits⟩

/-- A meaningful pattern that is not regular is refused a text, for one of its counts is too long. -/
theorem MeaningfulRoot.written (h : MeaningfulRoot p) :
    RegularRoot p ∨ ∃ f, p.textValue = .error f ∧ f.isRefusal = true := by
  have hbare : bare? p = none := by
    obtain h | ⟨q, k, rfl, -⟩ := h
    · exact h.notated.bare?_eq_none
    · rfl
  have hwritten := h.text_written
  rw [textValue, hbare]
  cases htext : text p with
  | error f =>
    rw [htext] at hwritten
    exact .inr ⟨f, rfl, hwritten⟩
  | ok cs =>
    rw [htext] at hwritten
    exact .inl hwritten

end Pattern

end Rosette
