import Rosette.Proofs.Pattern.Settings
import Rosette.Proofs.Token.Cut

/-!
# Tokens behind a pattern

Letting tokens through behind a pattern is reading a prefix of the text. Where a reader stops, the text in front of that
token is a pattern with nothing behind it, the same one; and it is the longest: a text that is cut in front of a later
token has its first token too many where the reader stopped (`parse_textBefore_iff`).
-/

namespace Rosette.Pattern

open Token

variable {limit : Int} {source : String} {p : Pattern} {r : Reader}

/-- What a reader of a text has not taken are the last tokens of the text. -/
theorem exists_taken_of_run (h : (Reader.ofSource limit source).run true = (.ok p, r)) :
    ∃ used, (scan .start source.toList).1 = used ++ r.rest ∧ r.bounds.stop = Location.start.after source.toList ∧
      Fits limit 0 p.nesting ∧
      ∀ (b : Bounds) (trailing : Bool) (more : List Token), StartsAs more r.rest → trailing = true ∨ more = [] →
        Fits b.maxDepth 0 p.nesting → readTopLevel b trailing 0 (used ++ more) = .ok (p, more) := by
  unfold Reader.run Reader.ofSource at h
  dsimp only at h
  split at h
  · cases h
  · rename_i q rest hread
    cases h
    obtain ⟨-, -, -, hfits⟩ := sound_topLevel hread
    obtain ⟨used, hused, hstays⟩ := stays_topLevel hread
    exact ⟨used, hused, scan_snd _ _, hfits, fun b trailing more => hstays b 0 trailing more⟩

/-- **Letting tokens through is reading the longest prefix.** Let `r` be a reader of a text that has read `p`, with
tokens let through behind it. The text cut in front of the first token that `r` has not taken is read as `p` with no
tokens let through; the text cut in front of any later one is not read. -/
theorem parse_textBefore_iff (h : (Reader.ofSource limit source).run true = (.ok p, r)) :
    ∃ used, tokenize source = used ++ (r.rest ++ [endAt r.bounds.stop]) ∧
      ∀ ts u us, r.rest ++ [endAt r.bounds.stop] = ts ++ u :: us →
        tokenize (textBefore source u) = used ++ ts ++ [endAt u.location] ∧
          ∀ q, parse ⟨limit, false⟩ (textBefore source u) = .ok q ↔ ts = [] ∧ q = p := by
  obtain ⟨used, hused, hstop, hfits, hstays⟩ := exists_taken_of_run h
  have htokens : tokenize source = used ++ (r.rest ++ [endAt r.bounds.stop]) := by
    rw [tokenize_eq, hused, hstop, List.append_assoc]
  refine ⟨used, htokens, fun ts u us hsplit => ?_⟩
  have hfront : tokenize source = (used ++ ts) ++ u :: us := by rw [htokens, hsplit, List.append_assoc]
  obtain ⟨hcut, -, -⟩ := tokenize_textBefore hfront
  have hscan : (scan .start (textBefore source u).toList).1 = used ++ ts := by
    rw [← tokenize_dropLast, hcut, List.dropLast_concat]
  -- what is left of the text begins with the token at which the reader stopped
  have hstarts : StartsAs ts r.rest := by
    have hlength := congrArg List.length hsplit
    simp only [List.length_append, List.length_cons, List.length_nil] at hlength
    exact head?_of_front
      (List.prefix_of_prefix_length_le ⟨_, hsplit.symm⟩ (List.prefix_append r.rest _) (by omega))
  refine ⟨hcut, fun q => ?_⟩
  rw [parse_eq_ok, hscan]
  constructor
  · rintro ⟨rest, hread⟩
    rw [readTopLevel_false, hstays _ true ts hstarts (.inl rfl) hfits] at hread
    cases ts with
    | nil =>
      cases hread
      exact ⟨rfl, rfl⟩
    | cons => cases hread
  · rintro ⟨rfl, rfl⟩
    exact ⟨[], hstays _ false [] hstarts (.inr rfl) hfits⟩

/-- `mir(d) ` is a pattern, and so is the whole text where `h:2` is let through; what lies between is none. -/
theorem parse_textBefore_iff_call :
    parse ⟨1, false⟩ "mir(d) " = .ok (.command "mir" [.symbol "d" false .absent] .absent) ∧
      (∀ q, parse ⟨1, false⟩ "mir(d) h" ≠ .ok q) ∧ ∀ q, parse ⟨1, false⟩ "mir(d) h:2" ≠ .ok q := by
  have htokens : Token.scan .start "mir(d) h:2".toList =
      ([⟨.identifier, "mir", ⟨1, 1, 0⟩⟩, ⟨.lparen, "(", ⟨1, 4, 3⟩⟩, ⟨.symbol, "d", ⟨1, 5, 4⟩⟩,
        ⟨.rparen, ")", ⟨1, 6, 5⟩⟩, ⟨.symbol, "h", ⟨1, 8, 7⟩⟩, ⟨.colon, ":", ⟨1, 9, 8⟩⟩, ⟨.number, "2", ⟨1, 10, 9⟩⟩],
        ⟨1, 11, 10⟩) := by
    decide +kernel
  have hword : ofWord ['d'] = .ok (.symbol "d" false .absent) := by with_unfolding_all rfl
  have hrun : (Reader.ofSource 1 "mir(d) h:2").run true =
      (.ok (.command "mir" [.symbol "d" false .absent] .absent),
        ⟨⟨1, ⟨1, 11, 10⟩⟩, [⟨.symbol, "h", ⟨1, 8, 7⟩⟩, ⟨.colon, ":", ⟨1, 9, 8⟩⟩, ⟨.number, "2", ⟨1, 10, 9⟩⟩], 0⟩) := by
    simp only [Reader.run, Reader.ofSource, htokens]
    simp [readTopLevel, readPattern, readCommand, readArguments, readArgument, readWord, readCount, hword, isSequence,
      Bounds.full, Text.foldAscii]
  obtain ⟨used, -, hcut⟩ := parse_textBefore_iff hrun
  refine ⟨((hcut [] _ _ rfl).2 _).2 ⟨rfl, rfl⟩, fun q hq => ?_, fun q hq => ?_⟩
  · exact List.cons_ne_nil _ _ (((hcut [_] _ _ rfl).2 q).1 hq).1
  · exact List.cons_ne_nil _ _ (((hcut [_, _, _] _ _ rfl).2 q).1 hq).1

end Rosette.Pattern
