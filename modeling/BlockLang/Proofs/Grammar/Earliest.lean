import BlockLang.Proofs.Grammar.Mirroring
import BlockLang.Proofs.Token.Tiling

/-!
# Grammar errors come as early as they can

Readers look one token ahead, so what they do up to a token depends on the tokens up to it and on nothing behind them.
Two lists of tokens that begin alike are read alike until a reader passes their common part, whatever the bounds that
the readers take from the whole lists.

## Main definitions

- `ReaderState.Alike`: two places with the same tokens before two different rests.
- `ReaderState.Likeness.sharing`: the likeness of such places.

## Main statement

- `parse_error_earliest`: the tokens before the one at fault begin a program, and all lists that share them and the
  token at fault are refused with the same error.
-/

namespace BlockLang

/-! ## §1 Places that look alike -/

/-- The same tokens are next, before two different rests. -/
structure ReaderState.Alike (rest rest' : List Token) (s s' : ReaderState) : Prop where
  tokens : ∃ shared, s.rest = shared ++ rest ∧ s'.rest = shared ++ rest'
  nextId : s.nextId = s'.nextId

namespace ReaderState.Alike

variable {rest rest' : List Token} {s s' : ReaderState}

theorem sameNext (h : s.Alike rest rest' s') (hlt : rest.length < s.rest.length) : s.SameNext s' := by
  obtain ⟨⟨shared, hs, hs'⟩, -⟩ := h
  cases shared with
  | nil => simp [hs] at hlt
  | cons tok shared => exact Or.inr ⟨tok, by simp [ReaderState.current, hs], by simp [ReaderState.current, hs']⟩

theorem advance (h : s.Alike rest rest' s') (hlt : rest.length < s.advance.rest.length) :
    s.advance.Alike rest rest' s'.advance := by
  obtain ⟨⟨shared, hs, hs'⟩, hid⟩ := h
  cases shared with
  | nil =>
    simp only [ReaderState.advance, hs, List.nil_append, List.length_drop] at hlt
    omega
  | cons tok shared => exact ⟨⟨shared, by simp [ReaderState.advance, hs], by simp [ReaderState.advance, hs']⟩, hid⟩

end ReaderState.Alike

/-- Places with common tokens look alike as long as one of these tokens is left. -/
def ReaderState.Likeness.sharing (rest rest' : List Token) : ReaderState.Likeness where
  floor := rest.length + 1
  edge := rest.length
  Alike := ReaderState.Alike rest rest'
  sameNext := ReaderState.Alike.sameNext
  nextId_eq h := h.nextId
  withId _ h := ⟨h.tokens, rfl⟩
  advance := ReaderState.Alike.advance
  nil_of_edge _ hfloor hedge := absurd (hfloor.trans hedge) (Nat.not_succ_le_self _)

/-- What fails before the common tokens of two lists are read fails alike for both. -/
theorem parse_error_of_shared {shared rest rest' : List Token} {e : GrammarError} {t : ReaderState}
    (h : Reader.program (ReaderState.ofTokens (shared ++ rest)) = .error e t) (hlt : rest.length < t.rest.length) :
    parse (shared ++ rest') = .error e := by
  have hn : shared.length ≤ (shared ++ rest).length + 1 := by
    rw [List.length_append]
    omega
  have hn' : shared.length + (0 + 1) ≤ (shared ++ rest').length + 1 := by
    rw [List.length_append]
    omega
  have hmirrors := Reader.mirrors_programOf (L := .sharing rest rest') (r := Reader.statementWithin) (.inr rfl)
    (fun _ => rfl) (fun _ => rfl) hn hn'
  have hsame : Reader.Mirrored (.sharing rest rest') (Reader.program (ReaderState.ofTokens (shared ++ rest)))
      (Reader.program (ReaderState.ofTokens (shared ++ rest'))) := by
    refine (hmirrors _ _).mirrored ⟨⟨shared, rfl, rfl⟩, rfl⟩ ?_ ?_
    · simp [ReaderState.ofTokens, ReaderState.Likeness.sharing, Nat.add_comm]
    · change rest.length < (Reader.place (Reader.program (ReaderState.ofTokens (shared ++ rest)))).rest.length
      rw [h]
      exact hlt
  rw [h] at hsame
  unfold parse Reader.parse EStateM.run
  generalize Reader.program (ReaderState.ofTokens (shared ++ rest')) = result at hsame
  cases hsame
  rfl

/-! ## §2 The token at fault -/

/-- The index of the token that an error is about; the number of tokens if it is behind all of them. -/
def GrammarError.index (e : GrammarError) (ts : List Token) : Nat :=
  ts.findIdx fun t => t.offset = e.offset

/-- Tokens that have been consumed begin before the token that is next, or before the end. -/
theorem offset_lt_of_uses {source : String} {ts used : List Token} {t : ReaderState} (hts : tokenize source = .ok ts)
    (huses : (ReaderState.ofTokens ts).Uses used t) : ∀ tok ∈ used, tok.offset < t.offset := by
  have htiling : Tiling 0 source.toList ts := by simpa using Scan.tiling_of_tokens hts
  obtain rfl : ts = used ++ t.rest := huses.rest
  obtain ⟨hused, -, hbehind⟩ := List.pairwise_append.mp htiling.pairwise
  have hpos : ∀ tok ∈ used, tok.offset < tok.endOffset := by
    intro tok htok
    have hne := (htiling.cutFrom tok (List.mem_append_left _ htok)).nonempty
    have hlength := List.length_pos_iff.mpr fun hnil => hne (String.toList_eq_nil_iff.mp hnil)
    rw [String.length_toList] at hlength
    unfold Token.endOffset
    omega
  intro tok htok
  have hstart := hpos tok htok
  cases hrest : t.rest with
  | cons next more =>
    have hle := hbehind tok htok next (by rw [hrest]; exact List.mem_cons_self)
    simp only [ReaderState.offset, ReaderState.current, hrest, List.head?_cons, Option.map_some, Option.getD_some]
    omega
  | nil =>
    rcases List.eq_nil_or_concat used with rfl | ⟨before, last, rfl⟩
    · simp at htok
    -- Behind all tokens the offset is the end of the last one.
    have hend : t.offset = last.endOffset := by
      have hsame := huses.endOffset
      rw [hrest] at hsame
      simpa [ReaderState.offset, ReaderState.current, hrest, ReaderState.ofTokens] using hsame
    rw [List.concat_eq_append] at hused htok
    rcases List.mem_append.mp htok with hmem | hmem
    · have hle := (List.pairwise_append.mp hused).2.2 tok hmem last (List.mem_singleton_self last)
      have hlast := hpos last (by simp)
      omega
    · obtain rfl := List.mem_singleton.mp hmem
      omega

/-- The error is about the token that the reader has stopped at. -/
theorem index_eq_length {source : String} {ts used : List Token} {t : ReaderState} {e : GrammarError}
    (hts : tokenize source = .ok ts) (huses : (ReaderState.ofTokens ts).Uses used t) (he : e.offset = t.offset) :
    e.index ts = used.length := by
  have hbefore := offset_lt_of_uses hts huses
  have hnone : used.findIdx (fun tok => decide (tok.offset = e.offset)) = used.length := by
    rw [List.findIdx_eq_length]
    intro tok htok
    have hlt := hbefore tok htok
    exact decide_eq_false (by omega)
  have hnext : t.rest.findIdx (fun tok => decide (tok.offset = e.offset)) = 0 := by
    cases hrest : t.rest with
    | nil => rfl
    | cons next more =>
      have hoffset : next.offset = e.offset := by
        rw [he]
        simp [ReaderState.offset, ReaderState.current, hrest]
      rw [List.findIdx_cons, decide_eq_true hoffset, cond_true]
  have hsplit : ts = used ++ t.rest := huses.rest
  rw [GrammarError.index, hsplit, List.findIdx_append, hnone, hnext, if_neg (lt_irrefl _), Nat.zero_add]

/-- **Grammar errors come at the earliest possible token.** The tokens before the one at fault begin a program that is
accepted. If there is a token at fault, every list of tokens that begins with these tokens and this one is refused with
the same error; otherwise the error is at the end of the last token. The text of a literal is never at fault. -/
theorem parse_error_earliest {source : String} {ts : List Token} {e : GrammarError} (hts : tokenize source = .ok ts)
    (h : parse ts = .error e) :
    (∃ more p, parse (ts.take (e.index ts) ++ more) = .ok p) ∧
      (e.index ts < ts.length → ∀ ts', ts.take (e.index ts + 1) <+: ts' → parse ts' = .error e) ∧
      (e.index ts = ts.length → e.offset = (ts.getLast?.map Token.endOffset).getD 0) ∧
      ∀ text offset, e ≠ .invalidLiteral text offset := by
  have hproper := form_of_mem_tokenize hts
  obtain ⟨used, t, hread, huses, hviable, hoffset, hliteral⟩ := viable_of_parse_error hproper h
  rw [index_eq_length hts huses hoffset]
  have hend : t.endOffset = (ts.getLast?.map Token.endOffset).getD 0 := huses.endOffset
  obtain rfl : ts = used ++ t.rest := huses.rest
  refine ⟨?_, fun hlt ts' hprefix => ?_, fun hall => ?_, hliteral⟩
  · rw [List.take_left]
    exact exists_parse_of_viable (List.forall_mem_append.mp hproper).1 hviable
  · -- The token at fault is the last one that the reader has seen.
    obtain ⟨next, more, hrest⟩ := List.exists_cons_of_ne_nil (show t.rest ≠ [] by rintro hnil; simp [hnil] at hlt)
    obtain ⟨rest', rfl⟩ := hprefix
    rw [hrest, List.take_length_add_append, List.take_succ_cons, List.take_zero]
    have hsame : Reader.program (ReaderState.ofTokens ((used ++ [next]) ++ more)) = .error e t := by
      rw [List.append_assoc, List.singleton_append, ← hrest]
      exact hread
    exact parse_error_of_shared hsame (by simp [hrest])
  · have hrest : t.rest = [] := by simpa using hall
    rw [hoffset, ← hend]
    simp [ReaderState.offset, ReaderState.current, hrest]

/-- The tokens of a function without statements. -/
def emptyTokens : List Token :=
  [⟨.identifier, "FUN", 0⟩, ⟨.identifier, "f", 4⟩, ⟨.operator, "(", 5⟩, ⟨.operator, ")", 6⟩, ⟨.identifier, "DO", 8⟩,
    ⟨.identifier, "END", 11⟩]

/-- A block without statements is refused at its `END`, whatever follows. -/
theorem parse_error_earliest_empty :
    tokenize "FUN f() DO END" = .ok emptyTokens ∧ parse emptyTokens = .error (.emptyBlock 11) ∧
      (∃ more p, parse (emptyTokens.take 5 ++ more) = .ok p) ∧
      parse (emptyTokens ++ sumTokens) = .error (.emptyBlock 11) := by
  have htokens : tokenize "FUN f() DO END" = .ok emptyTokens := by decide +kernel
  have hparse : parse emptyTokens = .error (.emptyBlock 11) := by rfl
  obtain ⟨hviable, hsame, -⟩ := parse_error_earliest htokens hparse
  have hindex : GrammarError.index (.emptyBlock 11) emptyTokens = 5 := by decide
  rw [hindex] at hviable hsame
  exact ⟨htokens, hparse, hviable, hsame (by decide) _ (List.prefix_append emptyTokens sumTokens)⟩

end BlockLang
